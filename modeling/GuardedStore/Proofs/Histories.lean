import GuardedStore.Proofs.CommitOrder

/-!
# Histories — what happens at a store, moment by moment

A run says where calls can get to.  What lies between two events of a call is said of a `History`,
which has a system for each moment.  At any moment one call may take a step, or nothing happens; so
each run is the beginning of a history (`exists_of_run`).

A value gets another number only when a call commits that writes its key (`exists_commits`).
-/

namespace GuardedStore
namespace System

open Versioned

variable {ι : Type} [DecidableEq ι] {calls : ι → StoreCall} {σ₀ σ σ' : System ι}
  {s : VersionedStore} {d : Disk} {i j : ι} {a m : ℕ} {q : String}

/-- What happens at a store, from its beginning on. -/
structure History (calls : ι → StoreCall) (σ₀ : System ι) where
  state : ℕ → System ι
  begins : state 0 = σ₀
  goes : ∀ m, state (m + 1) = state m ∨ Step calls (state m) (state (m + 1))

/-- Only a call that has logged its commit lets it take effect. -/
theorem Step.order_cases (h : Step calls σ σ') :
    σ'.order = σ.order ∨
      ∃ i t seq, σ.stage i = .logged t seq ∧ σ'.stage i = .applied t ∧
        σ'.order = σ.order ++ [(i, seq)] := by
  cases h with
  | @apply i b t seq hcall hstage => exact .inr ⟨i, t, seq, hstage, stage_move _, rfl⟩
  | _ => exact .inl rfl

/-- No step changes how often a batch is attempted. -/
theorem Step.maxAttempts_eq (h : Step calls σ σ') :
    σ'.store.maxAttempts = σ.store.maxAttempts := by
  cases h with
  | log hcall hstage hlog =>
      rcases VersionedStore.logCommit_inv hlog with ⟨log, -, rfl⟩
      rfl
  | _ => rfl

namespace History

/-- What happens between two moments is a run. -/
theorem run (h : History calls σ₀) (ham : a ≤ m) : Run calls (h.state a) (h.state m) := by
  induction ham with
  | refl => exact .refl
  | @step m _ ih =>
      rcases h.goes m with hsame | hstep
      · rw [hsame]
        exact ih
      · exact ih.tail hstep

/-- Each run is the beginning of a history. -/
theorem exists_of_run (hrun : Run calls σ₀ σ) :
    ∃ (h : History calls σ₀) (m : ℕ), h.state m = σ := by
  induction hrun with
  | refl => exact ⟨⟨fun _ => σ₀, rfl, fun _ => .inl rfl⟩, 0, rfl⟩
  | @tail σ σ' _ hstep ih =>
      rcases ih with ⟨h, m, hm⟩
      -- the last step is taken at moment `m`, and nothing happens later
      refine ⟨⟨fun k => if k ≤ m then h.state k else σ', ?_, ?_⟩, m + 1, if_neg (by omega)⟩
      · rw [if_pos (Nat.zero_le m)]
        exact h.begins
      · intro k
        rcases Nat.lt_trichotomy k m with hlt | heq | hgt
        · rw [if_pos (by omega), if_pos (by omega)]
          exact h.goes k
        · rw [if_neg (by omega), if_pos (by omega), heq, hm]
          exact .inr hstep
        · rw [if_neg (by omega), if_neg (by omega)]
          exact .inl rfl

theorem order_prefix (h : History calls σ₀) (ham : a ≤ m) :
    (h.state a).order <+: (h.state m).order := by
  induction ham with
  | refl => exact List.prefix_rfl
  | @step m _ ih =>
      rcases h.goes m with hsame | hstep
      · rw [hsame]
        exact ih
      · exact ih.trans hstep.order_prefix

theorem ordered (h : History calls (start s d)) (m : ℕ) :
    Ordered calls s.committed (fun _ => []) (h.state m) := by
  have hrun := h.run (Nat.zero_le m)
  rw [h.begins] at hrun
  exact (Ordered.start calls s d).run hrun

theorem maxAttempts_eq (h : History calls (start s d)) (m : ℕ) :
    (h.state m).store.maxAttempts = s.maxAttempts := by
  induction m with
  | zero =>
      rw [h.begins]
      rfl
  | succ m ih =>
      rcases h.goes m with hsame | hstep
      · rw [hsame]
        exact ih
      · exact hstep.maxAttempts_eq.trans ih

/-! ## Commits -/

/-- The commit of a call takes effect at a moment. -/
structure Commits (h : History calls σ₀) (m : ℕ) (i : ι) : Prop where
  moved : ∃ t seq, (h.state m).stage i = .logged t seq ∧ (h.state (m + 1)).stage i = .applied t
  applied : ∃ seq, (h.state (m + 1)).order = (h.state m).order ++ [(i, seq)] ∧
    (h.state (m + 1)).store.committed =
      (h.state m).store.committed.apply seq (calls i).batch.change

/-- What has been committed stays as it is until a call commits. -/
theorem committed_eq_or_commits (h : History calls (start s d)) (m : ℕ) :
    (h.state (m + 1)).store.committed = (h.state m).store.committed ∨ ∃ i, h.Commits m i := by
  have hbefore := (h.ordered m).committed
  have hafter := (h.ordered (m + 1)).committed
  rcases h.goes m with hsame | hstep
  · exact .inl (by rw [hsame])
  · rcases hstep.order_cases with horder | ⟨i, t, seq, hlogged, happlied, horder⟩
    · left
      rw [hafter, horder, ← hbefore]
    · refine .inr ⟨i, ⟨t, seq, hlogged, happlied⟩, seq, horder, ?_⟩
      rw [hafter, horder, after_concat, ← hbefore]

/-- A commit touches nothing but the keys that are written. -/
theorem get?_apply_of_not_written (c : Committed) (seq : UInt64) {b : Batch} (hq : q ∉ b.written) :
    (c.apply seq b.change).entries.get? q = c.entries.get? q := by
  rcases Batch.not_mem_of_not_written hq with ⟨hnone, hkept⟩
  have hput : SortedMap.lastValue? q b.change.puts = none := by
    rw [lastValue?_puts_change, if_neg hkept, hnone]
  rw [Committed.get?_apply, if_neg (fun hdeleted => hkept (mem_deletes_change.1 hdeleted)), hput]
  rfl

/-- If a value has got another number, then a call has committed that writes its key. -/
theorem exists_commits (h : History calls (start s d)) (ham : a ≤ m)
    (hchanged : ((h.state a).store.committed.entries.get? q).map Entry.seq ≠
      ((h.state m).store.committed.entries.get? q).map Entry.seq) :
    ∃ p j, a ≤ p ∧ p < m ∧ h.Commits p j ∧ q ∈ (calls j).batch.written := by
  induction ham with
  | refl => exact absurd rfl hchanged
  | @step m ham ih =>
      by_cases hbefore : ((h.state a).store.committed.entries.get? q).map Entry.seq =
          ((h.state m).store.committed.entries.get? q).map Entry.seq
      · -- the last step has changed the number
        rw [hbefore] at hchanged
        rcases h.committed_eq_or_commits m with hsame | ⟨j, hcommits⟩
        · rw [hsame] at hchanged
          exact absurd rfl hchanged
        · refine ⟨m, j, ham, Nat.lt_succ_self m, hcommits, ?_⟩
          by_contra hother
          rcases hcommits.applied with ⟨seq, -, hcommitted⟩
          rw [hcommitted, get?_apply_of_not_written _ seq hother] at hchanged
          exact hchanged rfl
      · rcases ih hbefore with ⟨p, j, hap, hpm, hrest⟩
        exact ⟨p, j, hap, Nat.lt_succ_of_lt hpm, hrest⟩

/-- The commit of a call takes effect after what was in the order before. -/
theorem Commits.mem_order {h : History calls σ₀} (hcommits : h.Commits a i) (ham : a < m) :
    i ∈ (h.state m).order.map Prod.fst := by
  rcases hcommits.applied with ⟨seq, horder, -⟩
  refine ((h.order_prefix ham).map Prod.fst).subset ?_
  rw [horder]
  simp

/-- A call commits only once. -/
theorem Commits.absent {h : History calls (start s d)} (hcommits : h.Commits a i) (hma : m ≤ a) :
    Absent (h.state m).order i := by
  rcases hcommits.moved with ⟨t, seq, hlogged, -⟩
  have habsent := ((h.ordered a).logged hlogged).1
  intro hmem
  exact habsent (((h.order_prefix hma).map Prod.fst).subset hmem)

end History
end System
end GuardedStore
