import GuardedStore.Proofs.Interleaving

/-!
# CommitOrder — calls commit one after the other

Whatever turns the calls of a system take, what has been committed is what the commits that took
effect amount to, in the order in which they did (`Ordered.committed`).  Each call that has begun
saw what had been committed after a beginning of that order, and each call that committed came to
its place when its written keys still had the numbers that it had seen (`Known`).

The invariant is kept by each step (`Ordered.step`) and so by each run (`Ordered.run`).  What a call
has seen goes at least as far as its floor, which can be raised to the present as long as the call
has not come (`Ordered.raise`).
-/

namespace GuardedStore
namespace System

open Versioned

variable {ι : Type} {calls : ι → StoreCall} {c : Committed} {σ σ' : System ι}
  {s : VersionedStore} {d : Disk} {i j : ι} {seq : UInt64} {t : Transaction}
  {old order : List (ι × UInt64)} {floor : ι → List (ι × UInt64)} {stage next : Stage}

/-! ## What the commits of calls amount to -/

/-- The commits of some calls. -/
def commitsOf (calls : ι → StoreCall) (order : List (ι × UInt64)) : List (UInt64 × Log.Change) :=
  order.map (fun e => (e.2, (calls e.1).batch.change))

/-- What has been committed after some calls. -/
def after (calls : ι → StoreCall) (c : Committed) (order : List (ι × UInt64)) : Committed :=
  c.applyAll (commitsOf calls order)

theorem after_concat (calls : ι → StoreCall) (c : Committed) (order : List (ι × UInt64)) (i : ι)
    (seq : UInt64) :
    after calls c (order ++ [(i, seq)]) =
      (after calls c order).apply seq (calls i).batch.change := by
  simp [after, commitsOf, Committed.applyAll_append]

/-- The numbers of the commits follow each other. -/
def Numbered (c : Committed) (order : List (ι × UInt64)) : Prop :=
  order.map Prod.snd = (List.range' 1 order.length).map (fun k => c.seq + UInt64.ofNat k)

namespace Numbered

theorem of_prefix {seen : List (ι × UInt64)} (h : Numbered c order) (hseen : seen <+: order) :
    Numbered c seen := by
  rcases hseen with ⟨rest, rfl⟩
  unfold Numbered at h
  rw [List.map_append, List.length_append, ← List.range'_append_1, List.map_append] at h
  exact (List.append_inj h (by simp)).1

theorem seq_after (h : Numbered c order) :
    (after calls c order).seq = c.seq + UInt64.ofNat order.length := by
  -- the last number is that of the last commit, or the one from before
  rcases List.eq_nil_or_concat order with rfl | ⟨order, ⟨i, seq⟩, rfl⟩
  · exact (UInt64.add_zero _).symm
  · rw [List.concat_eq_append] at h ⊢
    unfold Numbered at h
    rw [List.map_append, List.length_append, ← List.range'_append_1, List.map_append] at h
    have hlast := (List.append_inj h (by simp)).2
    rw [after_concat, Committed.seq_apply, List.length_append]
    simpa [Nat.add_comm] using hlast

theorem concat (h : Numbered c order) (i : ι) (hseq : seq = (after calls c order).seq + 1) :
    Numbered c (order ++ [(i, seq)]) := by
  -- the number after the last one is the number of the next position
  have hnumber : seq = c.seq + UInt64.ofNat (1 + order.length) := by
    rw [hseq, h.seq_after, Nat.add_comm, UInt64.ofNat_add, ← UInt64.add_assoc]
    rfl
  unfold Numbered at h ⊢
  rw [List.map_append, h, List.length_append, ← List.range'_append_1, List.map_append, hnumber]
  rfl

theorem toNat_add (hroom : c.seq.toNat + order.length < 2 ^ 64) {k : Nat}
    (hk : k ≤ order.length) : (c.seq + UInt64.ofNat k).toNat = c.seq.toNat + k := by
  rw [UInt64.toNat_add, UInt64.toNat_ofNat', Nat.mod_eq_of_lt (by omega),
    Nat.mod_eq_of_lt (by omega)]

theorem toNat_eq (h : Numbered c order) (hroom : c.seq.toNat + order.length < 2 ^ 64) :
    order.map (fun e => e.2.toNat) = List.range' (c.seq.toNat + 1) order.length := by
  have hsnd : order.map (fun e => e.2.toNat) = (order.map Prod.snd).map UInt64.toNat := by
    simp [Function.comp_def]
  have hshift : List.range' (c.seq.toNat + 1) order.length =
      (List.range' 1 order.length).map (fun k => c.seq.toNat + k) := by
    rw [List.map_add_range']
  rw [hsnd, h, List.map_map, hshift]
  refine List.map_congr_left ?_
  intro k hk
  rw [List.mem_range'_1] at hk
  exact toNat_add hroom (by omega)

/-- As long as there are numbers left, they increase. -/
theorem increasing (h : Numbered c order) (hroom : c.seq.toNat + order.length < 2 ^ 64) :
    Log.Increasing c.seq (commitsOf calls order) := by
  have hfst : (commitsOf calls order).map Prod.fst = order.map Prod.snd := by
    simp [commitsOf, Function.comp_def]
  -- with the last number from before in front, the numbers are those from zero on
  have hzero : c.seq :: (List.range' 1 order.length).map (fun k => c.seq + UInt64.ofNat k) =
      (List.range' 0 (order.length + 1)).map (fun k => c.seq + UInt64.ofNat k) := by
    rw [List.range'_succ, List.map_cons]
    simp
  unfold Log.Increasing
  rw [hfst, h, hzero, List.pairwise_map]
  refine List.Pairwise.imp_of_mem ?_ (List.pairwise_lt_range' ..)
  intro j k hj hk hlt
  rw [List.mem_range'_1] at hj hk
  rw [UInt64.lt_iff_toNat_lt, toNat_add hroom (by omega), toNat_add hroom (by omega)]
  omega

end Numbered

/-- The keys that a batch writes have the numbers that they had. -/
def Kept (b : Batch) (c c' : Committed) : Prop :=
  ∀ q ∈ b.written, (c.entries.get? q).map Entry.seq = (c'.entries.get? q).map Entry.seq

/-! ## What is known of a call -/

/-- A transaction sees what had been committed after a beginning of the order, at least `old`. -/
def Sees (calls : ι → StoreCall) (c : Committed) (old order : List (ι × UInt64)) (t : Transaction) :
    Prop :=
  ∃ seen, old <+: seen ∧ seen <+: order ∧ t = (after calls c seen).view

/-- What a transaction sees of the keys that it writes is what there is. -/
def Passed (calls : ι → StoreCall) (c : Committed) (old order : List (ι × UInt64)) (b : Batch)
    (t : Transaction) : Prop :=
  ∃ seen, old <+: seen ∧ seen <+: order ∧ t = (after calls c seen).view ∧
    Kept b (after calls c seen) (after calls c order)

/-- The commit of a call took effect, at a place where its transaction passed. -/
def Settled (calls : ι → StoreCall) (c : Committed) (old order : List (ι × UInt64)) (i : ι)
    (t : Transaction) : Prop :=
  (calls i).batch.isReadOnly = false ∧ ∃ before seq rest, order = before ++ (i, seq) :: rest ∧
    Passed calls c old before (calls i).batch t

/-- The commit of a call has not taken effect. -/
def Absent (order : List (ι × UInt64)) (i : ι) : Prop := i ∉ order.map Prod.fst

/-- What is known of a call that has got an answer. -/
def Answered (calls : ι → StoreCall) (c : Committed) (old order : List (ι × UInt64)) (i : ι)
    (answer : Answer) : StoreCall → Prop
  | .query q => Absent order i ∧
      ∃ seen, old <+: seen ∧ seen <+: order ∧ q.answer (after calls c seen) = .ok answer
  | .perform b => ∃ t, answer = .values (t.valuesOf b) ∧
      ((b.isReadOnly = true ∧ Absent order i ∧ Sees calls c old order t) ∨
        Settled calls c old order i t)
  | .close => Absent order i

/-- What is known of a call at a stage. -/
def Known (calls : ι → StoreCall) (c : Committed) (old order : List (ι × UInt64)) (i : ι) :
    Stage → Prop
  | .begun _ t => Absent order i ∧ Sees calls c old order t
  | .entered _ t =>
      Absent order i ∧ (calls i).batch.isReadOnly = false ∧ Sees calls c old order t
  | .validated t seq | .logged t seq =>
      Absent order i ∧ (calls i).batch.isReadOnly = false ∧ seq = (after calls c order).seq + 1 ∧
        Passed calls c old order (calls i).batch t
  | .applied t => Settled calls c old order i t
  | .returned (.ok answer) => Answered calls c old order i answer (calls i)
  | _ => Absent order i

theorem Absent.nodup_concat (h : Absent order i) (hnodup : (order.map Prod.fst).Nodup)
    (seq : UInt64) : ((order ++ [(i, seq)]).map Prod.fst).Nodup := by
  rw [List.map_append, List.nodup_append]
  refine ⟨hnodup, by simp, ?_⟩
  rintro j hj k hk rfl
  rw [List.map_singleton, List.mem_singleton] at hk
  rw [hk] at hj
  exact h hj

theorem Sees.mono (h : Sees calls c old order t) (e : ι × UInt64) :
    Sees calls c old (order ++ [e]) t := by
  rcases h with ⟨seen, hold, hseen, ht⟩
  exact ⟨seen, hold, hseen.trans (List.prefix_append ..), ht⟩

theorem Settled.mono (h : Settled calls c old order i t) (e : ι × UInt64) :
    Settled calls c old (order ++ [e]) i t := by
  rcases h with ⟨hwrite, before, seq, rest, rfl, hpassed⟩
  exact ⟨hwrite, before, seq, rest ++ [e], by simp, hpassed⟩

theorem Absent.mono (h : Absent order i) (hj : j ≠ i) (seq : UInt64) :
    Absent (order ++ [(j, seq)]) i := by
  simp only [Absent, List.map_append, List.map_cons, List.map_nil, List.mem_append,
    List.mem_singleton, not_or]
  exact ⟨h, Ne.symm hj⟩

/-- A commit of another call takes nothing away, except from a call in the section. -/
theorem Known.mono (h : Known calls c old order i stage) (hout : stage.inside = false) (hj : j ≠ i)
    (seq : UInt64) : Known calls c old (order ++ [(j, seq)]) i stage := by
  cases stage with
  | begun left t => exact ⟨h.1.mono hj seq, h.2.mono _⟩
  | entered => cases hout
  | validated => cases hout
  | logged => cases hout
  | applied => cases hout
  | shutting => cases hout
  | shut => cases hout
  | returned answer =>
      cases answer with
      | error e => exact Absent.mono h hj seq
      | ok answer =>
          -- what is known depends on the kind of call
          simp only [Known] at h ⊢
          cases hcall : calls i with
          | query q =>
              rw [hcall] at h
              rcases h with ⟨habsent, seen, hold, hseen, hanswer⟩
              exact ⟨habsent.mono hj seq, seen, hold, hseen.trans (List.prefix_append ..), hanswer⟩
          | perform b =>
              rw [hcall] at h
              rcases h with ⟨t, hanswer, ⟨hread, habsent, hsees⟩ | hsettled⟩
              · exact ⟨t, hanswer, .inl ⟨hread, habsent.mono hj seq, hsees.mono _⟩⟩
              · exact ⟨t, hanswer, .inr (hsettled.mono _)⟩
          | close =>
              rw [hcall] at h
              exact Absent.mono h hj seq
  | waiting => exact Absent.mono h hj seq
  | asked => exact Absent.mono h hj seq
  | reading => exact Absent.mono h hj seq
  | starting => exact Absent.mono h hj seq
  | admitted => exact Absent.mono h hj seq
  | closing => exact Absent.mono h hj seq

/-! ## The invariant -/

structure Ordered (calls : ι → StoreCall) (c : Committed) (floor : ι → List (ι × UInt64))
    (σ : System ι) : Prop where
  committed : σ.store.committed = after calls c σ.order
  numbered : Numbered c σ.order
  nodup : (σ.order.map Prod.fst).Nodup
  floored : ∀ i, floor i <+: σ.order
  alone : ∀ i j, (σ.stage i).inside = true → (σ.stage j).inside = true → i = j
  known : ∀ i, Known calls c (floor i) σ.order i (σ.stage i)

namespace Ordered

theorem start (calls : ι → StoreCall) (s : VersionedStore) (d : Disk) :
    Ordered calls s.committed (fun _ => []) (System.start s d) := by
  refine ⟨rfl, rfl, .nil, fun _ => List.nil_prefix, ?_, ?_⟩
  · intro i j hi
    cases hi
  · intro i
    exact List.not_mem_nil

theorem validated (h : Ordered calls c floor σ) (hstage : σ.stage i = .validated t seq) :
    Absent σ.order i ∧ (calls i).batch.isReadOnly = false ∧
      seq = (after calls c σ.order).seq + 1 ∧
      Passed calls c (floor i) σ.order (calls i).batch t := by
  have hknown := h.known i
  rw [hstage] at hknown
  exact hknown

theorem logged (h : Ordered calls c floor σ) (hstage : σ.stage i = .logged t seq) :
    Absent σ.order i ∧ (calls i).batch.isReadOnly = false ∧
      seq = (after calls c σ.order).seq + 1 ∧
      Passed calls c (floor i) σ.order (calls i).batch t := by
  have hknown := h.known i
  rw [hstage] at hknown
  exact hknown

/-- While a call is about to log its commit, no other one has logged its own. -/
theorem not_logged_of_validated (h : Ordered calls c floor σ)
    (hstage : σ.stage i = .validated t seq) {t' : Transaction} {seq' : UInt64} :
    σ.stage j ≠ .logged t' seq' := by
  intro hlogged
  -- two calls in the section
  have hj : j = i := h.alone j i (by rw [hlogged]; rfl) (by rw [hstage]; rfl)
  rw [hj, hstage] at hlogged
  cases hlogged

/-- At most one call has logged its commit without letting it take effect. -/
theorem eq_of_logged (h : Ordered calls c floor σ) (hstage : σ.stage i = .logged t seq)
    {t' : Transaction} {seq' : UInt64} (hlogged : σ.stage j = .logged t' seq') :
    j = i ∧ seq' = seq := by
  have hj : j = i := h.alone j i (by rw [hlogged]; rfl) (by rw [hstage]; rfl)
  rw [hj, hstage] at hlogged
  cases hlogged
  exact ⟨hj, rfl⟩

variable [DecidableEq ι]

/-- A call that has not come will see all that has been committed by now. -/
theorem raise (h : Ordered calls c floor σ) (hstage : σ.stage i = .waiting) :
    Ordered calls c (Function.update floor i σ.order) σ := by
  refine ⟨h.committed, h.numbered, h.nodup, ?_, h.alone, ?_⟩
  · intro j
    by_cases hj : j = i
    · have hraised : Function.update floor i σ.order j = σ.order := by
        rw [hj, Function.update_self]
      exact ⟨[], by rw [hraised, List.append_nil]⟩
    · rw [Function.update_of_ne hj]
      exact h.floored j
  · intro j
    have hknown := h.known j
    by_cases hj : j = i
    · rw [hj, hstage] at hknown ⊢
      exact hknown
    · rw [Function.update_of_ne hj]
      exact hknown

/-- A step of one call by which nothing is committed. -/
theorem move (h : Ordered calls c floor σ) (hstage : σ.stage i = stage)
    (hs : s.committed = σ.store.committed)
    (hinside : next.inside = false ∨ stage.inside = true ∨ σ.Free)
    (hknown : Known calls c (floor i) σ.order i stage → Known calls c (floor i) σ.order i next) :
    Ordered calls c floor (System.move ⟨s, d, σ.stage, σ.order⟩ i next) := by
  refine ⟨hs.trans h.committed, h.numbered, h.nodup, h.floored, ?_, ?_⟩
  · -- whoever is in the section was there before, or it was free
    have hold : ∀ j k, (Function.update σ.stage i next j).inside = true →
        (Function.update σ.stage i next k).inside = true → j ≠ i → j = k := by
      intro j k hj hk hne
      rw [Function.update_of_ne hne] at hj
      by_cases hki : k = i
      · rw [hki, Function.update_self] at hk
        rcases hinside with hout | hin | hfree
        · rw [hout] at hk
          cases hk
        · rw [hki]
          exact h.alone j i hj (hstage ▸ hin)
        · rw [hfree j] at hj
          cases hj
      · rw [Function.update_of_ne hki] at hk
        exact h.alone j k hj hk
    intro j k hj hk
    by_cases hji : j = i
    · by_cases hki : k = i
      · rw [hji, hki]
      · exact (hold k j hk hj hki).symm
    · exact hold j k hj hk hji
  · exact forall_stage_move (P := fun j => Known calls c (floor j) σ.order j)
      (hknown (hstage ▸ h.known i)) (fun j _ => h.known j)

/-- The commit of a call takes effect. -/
theorem apply (h : Ordered calls c floor σ) (hcommitted : s.committed =
      σ.store.committed.apply seq (calls i).batch.change)
    (hstage : σ.stage i = .logged t seq) :
    Ordered calls c floor
      (System.move ⟨s, d, σ.stage, σ.order ++ [(i, seq)]⟩ i (.applied t)) := by
  rcases h.logged hstage with ⟨habsent, hwrite, hseq, hpassed⟩
  have hin : (σ.stage i).inside = true := by rw [hstage]; rfl
  refine ⟨?_, ?_, ?_, ?_, ?_, ?_⟩
  · rw [order_move, store_move, after_concat, ← h.committed]
    exact hcommitted
  · exact h.numbered.concat i hseq
  · exact habsent.nodup_concat h.nodup seq
  · intro j
    exact (h.floored j).trans (List.prefix_append ..)
  · -- the call that commits was the one in the section and still is
    have honly : ∀ j, (Function.update σ.stage i (.applied t) j).inside = true → j = i := by
      intro j hj
      by_contra hne
      rw [Function.update_of_ne hne] at hj
      exact hne (h.alone j i hj hin)
    intro j k hj hk
    exact (honly j hj).trans (honly k hk).symm
  · refine forall_stage_move (P := fun j => Known calls c (floor j) (σ.order ++ [(i, seq)]) j)
      ⟨hwrite, σ.order, seq, [], rfl, hpassed⟩ ?_
    intro j hj
    -- no other call is in the section, so all that is known of it stays true
    refine (h.known j).mono ?_ (Ne.symm hj) seq
    by_contra hother
    exact hj (h.alone j i (Bool.not_eq_false _ ▸ hother) hin)

/-- Every step keeps the order. -/
theorem step (h : Ordered calls c floor σ) (hstep : Step calls σ σ') :
    Ordered calls c floor σ' := by
  cases hstep with
  | ask hcall hstage => exact h.move hstage rfl (.inl rfl) id
  | allow hstage hopen => exact h.move hstage rfl (.inl rfl) id
  | deny hstage hclosed => exact h.move hstage rfl (.inl rfl) id
  | @answer i q hcall hstage =>
      refine h.move hstage rfl (.inl rfl) ?_
      intro habsent
      cases hanswer : q.answer σ.store.committed with
      | error e => exact habsent
      | ok answer =>
          -- it answers what there is at this moment
          rw [h.committed] at hanswer
          simp only [Known, hcall]
          exact ⟨habsent, σ.order, h.floored i, List.prefix_rfl, hanswer⟩
  | start hcall hstage => exact h.move hstage rfl (.inl rfl) id
  | abandon hstage => exact h.move hstage rfl (.inl rfl) id
  | approve hstage hopen => exact h.move hstage rfl (.inl rfl) id
  | refuse hstage hclosed => exact h.move hstage rfl (.inl rfl) id
  | @begin i left hstage =>
      refine h.move hstage rfl (.inl rfl) ?_
      intro habsent
      exact ⟨habsent, σ.order, h.floored i, List.prefix_rfl, congrArg Committed.view h.committed⟩
  | @finish i b left t hcall hstage hread =>
      refine h.move hstage rfl (.inl rfl) ?_
      rintro ⟨habsent, seen, hold, hseen, ht⟩
      rw [ht, isReadOnly_write] at hread
      simp only [Known, hcall]
      exact ⟨t, rfl, .inl ⟨hread, habsent, seen, hold, hseen, ht⟩⟩
  | @enter i b left t hcall hstage hwrite hfree =>
      refine h.move hstage rfl (.inr (.inr hfree)) ?_
      rintro ⟨habsent, seen, hold, hseen, ht⟩
      rw [ht, isReadOnly_write] at hwrite
      exact ⟨habsent, by rw [hcall]; exact hwrite, seen, hold, hseen, ht⟩
  | @validate i b left t seq hcall hstage hvalid =>
      refine h.move hstage rfl (.inr (.inl rfl)) ?_
      rintro ⟨habsent, hwrite, seen, hold, hseen, ht⟩
      -- what was validated is what has been committed by now
      rcases VersionedStore.validate_ok hvalid with ⟨-, hnone, hseq⟩
      rw [ht, conflict?_eq_none_iff, h.committed] at hnone
      refine ⟨habsent, hwrite, ?_, seen, hold, hseen, ht, ?_⟩
      · rw [hseq, h.committed]
      · rw [hcall]
        exact hnone
  | retry hcall hstage hconflict => exact h.move hstage rfl (.inl rfl) And.left
  | reject hcall hstage hinvalid hfinal => exact h.move hstage rfl (.inl rfl) And.left
  | log hcall hstage hlog =>
      exact h.move hstage (VersionedStore.committed_of_logCommit hlog) (.inr (.inl rfl)) id
  | refuseLog hcall hstage hlog => exact h.move hstage rfl (.inl rfl) And.left
  | breakOff hwrites hpart =>
      rcases hwrites with ⟨b, t, seq, hcall, hstage, -, -⟩
      exact h.move hstage rfl (.inl rfl) And.left
  | @apply i b t seq hcall hstage =>
      refine h.apply ?_ hstage
      rcases h.logged hstage with ⟨-, -, -, seen, -, -, ht, -⟩
      -- the change does not depend on what the transaction saw
      rw [VersionedStore.applyCommit, ht, change_write, hcall]
      rfl
  | @leave i b t hcall hstage =>
      refine h.move hstage rfl (.inl rfl) ?_
      intro hsettled
      simp only [Known, hcall]
      exact ⟨t, rfl, .inr hsettled⟩
  | knock hcall hstage => exact h.move hstage rfl (.inl rfl) id
  | enterClosing hstage hfree => exact h.move hstage rfl (.inr (.inr hfree)) id
  | shut hstage => exact h.move hstage rfl (.inr (.inl rfl)) id
  | @leaveClosing i hcall hstage =>
      refine h.move hstage rfl (.inl rfl) ?_
      intro habsent
      simp only [Known, hcall]
      exact habsent
  | failClosing hstage => exact h.move hstage rfl (.inl rfl) id

/-- Every run keeps the order. -/
theorem run (h : Ordered calls c floor σ) (hrun : Run calls σ σ') : Ordered calls c floor σ' := by
  induction hrun with
  | refl => exact h
  | tail _ hstep ih => exact ih.step hstep

end Ordered
end System
end GuardedStore
