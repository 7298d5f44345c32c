import GuardedStore.Proofs.Histories
import GuardedStore.Proofs.CutLogs
import GuardedStore.Proofs.Serializability

/-!
# Conflicts — no call is in conflict unless others have changed what it writes

An attempt of a call is in conflict only if, after it has looked at what has been committed and
before it is validated, another call commits that writes one of the same keys (`overtaken`).  The
attempts of a call come one after the other, so a call that is abandoned has been overtaken by as
many different calls as it has made attempts (`Lost`), which each step keeps (`past_step`).
-/

namespace GuardedStore
namespace VersionedStore

open Versioned

variable {s : VersionedStore} {d : Disk} {t : Transaction} {seq : UInt64} {e : StoreError}

theorem ensureOpen_error (h : s.ensureOpen = .error e) : e = .closed := by
  cases hopen : s.closed with
  | false =>
      rw [ensureOpen_of_open hopen] at h
      cases h
  | true =>
      rw [ensureOpen_of_closed hopen] at h
      cases h
      rfl

/-- What keeps a transaction from being committed. -/
theorem validate_error (h : s.validate t = .error e) :
    (s.closed = true ∧ e = .closed) ∨
      ∃ key, t.conflict? s.committed.entries = some key ∧
        e = .storageConflict (.changedKey key) := by
  cases hopen : s.closed with
  | true =>
      rw [validate, ensureOpen_of_closed hopen] at h
      cases h
      exact .inl ⟨rfl, rfl⟩
  | false =>
      cases hconflict : t.conflict? s.committed.entries with
      | none =>
          simp only [validate, ensureOpen_of_open hopen, hconflict] at h
          cases h
      | some key =>
          simp only [validate, ensureOpen_of_open hopen, hconflict] at h
          cases h
          exact .inr ⟨key, rfl, rfl⟩

/-- What keeps a commit from being logged. -/
theorem logCommit_refused (h : s.logCommit d seq t = .error e) :
    e = .storage (.brokenLog s.log.path) ∨ e = .storage (.largeCommit seq) := by
  unfold logCommit at h
  split at h
  · rename_i happend
    cases h
    exact CommitLog.append_error happend
  · cases h

end VersionedStore

theorem Query.answer_ne_abandoned (q : Query) (c : Versioned.Committed) (k : ℕ) (last : Conflict) :
    q.answer c ≠ .error (.storage (.abandoned k last)) := by
  have hread : ∀ (l : List (String × String)) (values : Values),
      readStored l values ≠ .error (.storage (.abandoned k last)) := by
    intro l
    induction l with
    | nil =>
        intro values h
        cases h
    | cons e l ih =>
        intro values h
        unfold readStored at h
        split at h
        · cases h
        · exact ih _ h
  cases q with
  | all =>
      intro h
      simp only [answer] at h
      cases hstored :
          readStored (c.view.snapshot.toList.map (fun e => (e.1, e.2.value))) .empty with
      | ok values =>
          rw [hstored] at h
          cases h
      | error e =>
          rw [hstored] at h
          cases h
          exact hread _ _ hstored
  | _ =>
      intro h
      cases h

namespace System

open Versioned

variable {ι : Type} [DecidableEq ι] {calls : ι → StoreCall} {σ₀ σ σ' : System ι}
  {s s' : VersionedStore} {d d' : Disk} {i j : ι} {a m n left : ℕ} {t : Transaction} {q : String}
  {stage next : Stage} {order rivals : List (ι × UInt64)}

/-- No step brings a call to wait. -/
theorem Step.waiting (h : Step calls σ σ') (hstage : σ'.stage j = .waiting) :
    σ.stage j = .waiting := by
  have hmove : ∀ {i : ι} {next : Stage} {s' : VersionedStore} {d' : Disk}
      {order : List (ι × UInt64)}, next ≠ .waiting →
      (System.move ⟨s', d', σ.stage, order⟩ i next).stage j = .waiting → σ.stage j = .waiting := by
    intro i next s' d' order hnext hstage
    by_cases hj : j = i
    · rw [hj, stage_move] at hstage
      exact absurd hstage hnext
    · rwa [stage_move_of_ne next hj] at hstage
  cases h with
  | _ => exact hmove (by intro h; cases h) hstage

namespace History

variable {rivals : List ι}

/-! ## Attempts -/

/-- A call looks at what has been committed, for an attempt after which some more are left. -/
structure Looks (h : History calls σ₀) (m : ℕ) (i : ι) (left : ℕ) (t : Transaction) : Prop where
  admitted : (h.state m).stage i = .admitted left
  sees : t = (h.state m).store.committed.view
  next : h.state (m + 1) = (h.state m).move i (.begun left t)

/-- An attempt of a call is found to be in conflict. -/
structure Conflicts (h : History calls σ₀) (m : ℕ) (i : ι) (left : ℕ) (t : Transaction) : Prop where
  entered : (h.state m).stage i = .entered left t
  refused : ∃ c,
    (h.state m).store.validate (t.write (calls i).batch) = .error (.storageConflict c) ∧
      (h.state (m + 1)).stage i = .starting left c

/-- While an attempt of a call was under way, which had failed by some moment, another call has
committed that writes one of the same keys. -/
structure Overtaken (h : History calls σ₀) (m : ℕ) (i : ι) (left : ℕ) (j : ι) : Prop where
  other : j ≠ i
  shared : ∃ q ∈ (calls i).batch.written, q ∈ (calls j).batch.written
  between : ∃ t first middle last, first < middle ∧ middle < last ∧ last < m ∧
    h.Looks first i left t ∧ h.Commits middle j ∧ h.Conflicts last i left t

theorem Overtaken.mono {h : History calls σ₀} (hovertaken : h.Overtaken a i left j) (ham : a ≤ m) :
    h.Overtaken m i left j := by
  rcases hovertaken.between with ⟨t, first, middle, last, hfirst, hlast, hend, hrest⟩
  exact ⟨hovertaken.other, hovertaken.shared, t, first, middle, last, hfirst, hlast, by omega,
    hrest⟩

/-- The call that is to blame for a conflict, which had not committed when the attempt began. -/
theorem exists_overtaken {h : History calls (start s d)} (hlooks : h.Looks a i left t) (ham : a < m)
    (hconflicts : h.Conflicts m i left t) :
    ∃ j, h.Overtaken (m + 1) i left j ∧ Absent (h.state a).order j ∧
      j ∈ (h.state (m + 1)).order.map Prod.fst := by
  rcases hconflicts.refused with ⟨c, hinvalid, -⟩
  have hsome :
      ((t.write (calls i).batch).conflict? (h.state m).store.committed.entries).isSome := by
    rcases VersionedStore.validate_error hinvalid with ⟨-, hclosed⟩ | ⟨key, hkey, -⟩
    · cases hclosed
    · rw [hkey]
      rfl
  -- some written key has another number than when the attempt began
  rw [Option.isSome_iff_ne_none, hlooks.sees, Ne, conflict?_eq_none_iff] at hsome
  push Not at hsome
  rcases hsome with ⟨q, hq, hchanged⟩
  have hlooked : (h.state (a + 1)).store.committed = (h.state a).store.committed := by
    rw [hlooks.next, store_move]
  rw [← hlooked] at hchanged
  rcases h.exists_commits ham hchanged with ⟨p, j, hap, hpm, hcommits, hwritten⟩
  -- the call itself has not committed yet
  have hother : j ≠ i := by
    rintro rfl
    have hknown := (h.ordered m).known j
    rw [hconflicts.entered] at hknown
    exact hknown.1 (hcommits.mem_order hpm)
  refine ⟨j, ⟨hother, ⟨q, hq, hwritten⟩, t, a, p, m, hap, hpm, Nat.lt_succ_self m, hlooks, hcommits,
    hconflicts⟩, hcommits.absent (by omega), hcommits.mem_order (by omega)⟩

/-! ## What lies behind a call -/

/-- The attempts of a call that have failed, and the calls that are to blame, the last one first. -/
structure Lost (h : History calls σ₀) (n : ℕ) (i : ι) (left m : ℕ) (rivals : List ι) : Prop where
  length : left + rivals.length = n
  nodup : rivals.Nodup
  committed : ∀ j ∈ rivals, j ∈ (h.state m).order.map Prod.fst
  overtaken : ∀ k j, rivals[k]? = some j → h.Overtaken m i (left + k) j

theorem Lost.mono {h : History calls σ₀} (hlost : h.Lost n i left a rivals) (ham : a ≤ m) :
    h.Lost n i left m rivals := by
  refine ⟨hlost.length, hlost.nodup, ?_, ?_⟩
  · intro j hj
    exact ((h.order_prefix ham).map Prod.fst).subset (hlost.committed j hj)
  · intro k j hk
    exact (hlost.overtaken k j hk).mono ham

/-- Another attempt has failed. -/
theorem Lost.cons {h : History calls (start s d)} (hlost : h.Lost n i (left + 1) a rivals)
    (hlooks : h.Looks a i left t) (ham : a < m) (hconflicts : h.Conflicts m i left t) :
    ∃ rivals, h.Lost n i left (m + 1) rivals := by
  rcases exists_overtaken hlooks ham hconflicts with ⟨j, hovertaken, habsent, hmem⟩
  have hlost' := hlost.mono (show a ≤ m + 1 by omega)
  refine ⟨j :: rivals, ?_, ?_, ?_, ?_⟩
  · rw [List.length_cons]
    have hlength := hlost.length
    omega
  · -- the others had committed before this attempt began
    refine List.nodup_cons.2 ⟨?_, hlost.nodup⟩
    intro hj
    exact habsent (hlost.committed j hj)
  · intro k hk
    rcases List.mem_cons.1 hk with rfl | hk
    · exact hmem
    · exact hlost'.committed k hk
  · intro k j' hk
    cases k with
    | zero =>
        rw [List.getElem?_cons_zero, Option.some.injEq] at hk
        rw [← hk]
        exact hovertaken
    | succ k =>
        rw [List.getElem?_cons_succ] at hk
        have hold := hlost'.overtaken k j' hk
        rwa [Nat.add_assoc, Nat.add_comm 1 k] at hold

/-- What lies behind a call that has come to a stage, if it has so many attempts in all. -/
def Past (h : History calls σ₀) (n m : ℕ) (i : ι) : Stage → Prop
  | .starting left _ => ∃ rivals, h.Lost n i left m rivals
  | .admitted left => ∃ rivals, h.Lost n i (left + 1) m rivals
  | .begun left t | .entered left t =>
      ∃ a rivals, a < m ∧ h.Looks a i left t ∧ h.Lost n i (left + 1) a rivals
  | .returned answer => ∀ k last, answer = .error (.storage (.abandoned k last)) →
      k = n ∧ ∃ rivals, h.Lost n i 0 m rivals
  | _ => True

theorem Past.mono {h : History calls σ₀} (hpast : h.Past n a i stage) (ham : a ≤ m) :
    h.Past n m i stage := by
  cases stage with
  | starting left last =>
      rcases hpast with ⟨rivals, hlost⟩
      exact ⟨rivals, hlost.mono ham⟩
  | admitted left =>
      rcases hpast with ⟨rivals, hlost⟩
      exact ⟨rivals, hlost.mono ham⟩
  | begun left t =>
      rcases hpast with ⟨first, rivals, hfirst, hrest⟩
      exact ⟨first, rivals, by omega, hrest⟩
  | entered left t =>
      rcases hpast with ⟨first, rivals, hfirst, hrest⟩
      exact ⟨first, rivals, by omega, hrest⟩
  | returned answer =>
      intro k last hanswer
      rcases hpast k last hanswer with ⟨hk, rivals, hlost⟩
      exact ⟨hk, rivals, hlost.mono ham⟩
  | _ => trivial

/-- Nothing lies behind an answer other than that of an abandoned call. -/
theorem past_returned {h : History calls σ₀} {answer : Except StoreError Answer}
    (hother : ∀ k last, answer ≠ .error (.storage (.abandoned k last))) :
    h.Past n m i (.returned answer) := by
  intro k last hanswer
  exact absurd hanswer (hother k last)

theorem past_move {h : History calls σ₀} (hpast : ∀ j, h.Past n m j ((h.state m).stage j))
    (hstate : h.state (m + 1) = System.move ⟨s', d', (h.state m).stage, order⟩ i next)
    (hstage : (h.state m).stage i = stage)
    (hnext : h.Past n m i stage → h.Past n (m + 1) i next) (j : ι) :
    h.Past n (m + 1) j ((h.state (m + 1)).stage j) := by
  rw [hstate]
  exact forall_stage_move (P := h.Past n (m + 1)) (hnext (hstage ▸ hpast i))
    (fun j _ => (hpast j).mono (Nat.le_succ m)) j

/-- What lies behind the calls is told by their stages, at any moment. -/
theorem past_step (h : History calls (start s d))
    (hpast : ∀ j, h.Past s.maxAttempts m j ((h.state m).stage j)) (j : ι) :
    h.Past s.maxAttempts (m + 1) j ((h.state (m + 1)).stage j) := by
  have hlater : m ≤ m + 1 := Nat.le_succ m
  rcases h.goes m with hsame | hstep
  · rw [hsame]
    exact (hpast j).mono hlater
  · have hattempts := h.maxAttempts_eq m
    obtain ⟨σ', hstate⟩ : ∃ σ', h.state (m + 1) = σ' := ⟨_, rfl⟩
    rw [hstate] at hstep
    cases hstep with
    | ask hcall hstage => exact past_move hpast hstate hstage (fun _ => trivial) j
    | allow hstage hopen => exact past_move hpast hstate hstage (fun _ => trivial) j
    | deny hstage hclosed =>
        rw [VersionedStore.ensureOpen_error hclosed] at hstate
        exact past_move hpast hstate hstage (fun _ => past_returned (fun _ _ => nofun)) j
    | answer hcall hstage =>
        exact past_move hpast hstate hstage
          (fun _ => past_returned (Query.answer_ne_abandoned _ _)) j
    | start hcall hstage =>
        refine past_move hpast hstate hstage (fun _ => ⟨[], ?_, .nil, ?_, ?_⟩) j
        · rw [hattempts, List.length_nil, Nat.add_zero]
        · intro k hk
          cases hk
        · intro k j' hk
          cases hk
    | abandon hstage =>
        refine past_move hpast hstate hstage ?_ j
        rintro ⟨rivals, hlost⟩ k last hanswer
        cases hanswer
        exact ⟨hattempts, rivals, hlost.mono hlater⟩
    | @approve i left last hstage hopen =>
        refine past_move hpast hstate hstage ?_ j
        rintro ⟨rivals, hlost⟩
        exact ⟨rivals, hlost.mono hlater⟩
    | refuse hstage hclosed =>
        rw [VersionedStore.ensureOpen_error hclosed] at hstate
        exact past_move hpast hstate hstage (fun _ => past_returned (fun _ _ => nofun)) j
    | begin hstage =>
        refine past_move hpast hstate hstage ?_ j
        rintro ⟨rivals, hlost⟩
        exact ⟨m, rivals, Nat.lt_succ_self m, ⟨hstage, rfl, hstate⟩, hlost⟩
    | finish hcall hstage hread =>
        exact past_move hpast hstate hstage (fun _ => past_returned (fun _ _ => nofun)) j
    | enter hcall hstage hwrite hfree =>
        refine past_move hpast hstate hstage ?_ j
        rintro ⟨a, rivals, ham, hrest⟩
        exact ⟨a, rivals, by omega, hrest⟩
    | validate hcall hstage hvalid => exact past_move hpast hstate hstage (fun _ => trivial) j
    | @retry i b left t c hcall hstage hconflict =>
        refine past_move hpast hstate hstage ?_ j
        rintro ⟨a, rivals, ham, hlooks, hlost⟩
        refine hlost.cons hlooks ham ⟨hstage, c, ?_, ?_⟩
        · rw [hcall]
          exact hconflict
        · rw [hstate, stage_move]
    | reject hcall hstage hinvalid hfinal =>
        refine past_move hpast hstate hstage (fun _ => past_returned ?_) j
        intro k last hanswer
        rcases VersionedStore.validate_error hinvalid with ⟨-, rfl⟩ | ⟨key, -, rfl⟩
        · cases hanswer
        · cases hanswer
    | log hcall hstage hlog => exact past_move hpast hstate hstage (fun _ => trivial) j
    | refuseLog hcall hstage hlog =>
        refine past_move hpast hstate hstage (fun _ => past_returned ?_) j
        intro k last hanswer
        rcases VersionedStore.logCommit_refused hlog with rfl | rfl
        · cases hanswer
        · cases hanswer
    | breakOff hwrites hpart =>
        exact past_move hpast hstate rfl (fun _ => past_returned (fun _ _ => nofun)) j
    | apply hcall hstage => exact past_move hpast hstate hstage (fun _ => trivial) j
    | leave hcall hstage =>
        exact past_move hpast hstate hstage (fun _ => past_returned (fun _ _ => nofun)) j
    | knock hcall hstage => exact past_move hpast hstate hstage (fun _ => trivial) j
    | enterClosing hstage hfree => exact past_move hpast hstate hstage (fun _ => trivial) j
    | shut hstage => exact past_move hpast hstate hstage (fun _ => trivial) j
    | leaveClosing hcall hstage =>
        exact past_move hpast hstate hstage (fun _ => past_returned (fun _ _ => nofun)) j
    | failClosing hstage =>
        exact past_move hpast hstate hstage (fun _ => past_returned (fun _ _ => nofun)) j

theorem past (h : History calls (start s d)) (m : ℕ) (j : ι) :
    h.Past s.maxAttempts m j ((h.state m).stage j) := by
  induction m generalizing j with
  | zero =>
      rw [h.begins]
      trivial
  | succ m ih => exact h.past_step ih j

/-! ## Calls that are not in conflict -/

/-- A call has met no conflict up to a moment, and it has not been abandoned. -/
structure Unhindered (h : History calls σ₀) (m : ℕ) (i : ι) : Prop where
  valid : ∀ p left t, p < m → ¬ h.Conflicts p i left t
  kept : ∀ n last, (h.state m).stage i ≠ .returned (.error (.storage (.abandoned n last)))

/-- From one moment to another no other call takes a step. -/
def Alone (h : History calls σ₀) (i : ι) (a m : ℕ) : Prop :=
  ∀ p, a ≤ p → p < m → ∀ j, j ≠ i → (h.state (p + 1)).stage j = (h.state p).stage j

theorem unhindered_of_not_overtaken {h : History calls (start s d)} (hattempts : 0 < s.maxAttempts)
    (hnone : ∀ left j, ¬ h.Overtaken m i left j) : h.Unhindered m i := by
  constructor
  · intro p left t hp hconflicts
    have hpast := h.past p i
    rw [hconflicts.entered] at hpast
    rcases hpast with ⟨a, rivals, ham, hlooks, -⟩
    rcases exists_overtaken hlooks ham hconflicts with ⟨j, hovertaken, -, -⟩
    exact hnone left j (hovertaken.mono hp)
  · intro n last hstage
    have hpast := h.past m i
    rw [hstage] at hpast
    rcases hpast n last rfl with ⟨-, rivals, hlost⟩
    -- there has been an attempt, and so somebody who is to blame
    have hlength := hlost.length
    cases rivals with
    | nil =>
        rw [List.length_nil] at hlength
        omega
    | cons j rivals => exact hnone _ j (hlost.overtaken 0 j rfl)

/-- No call comes to wait again. -/
theorem waiting_of_waiting (h : History calls σ₀) (ham : a ≤ m)
    (hstage : (h.state m).stage i = .waiting) : (h.state a).stage i = .waiting := by
  induction ham with
  | refl => exact hstage
  | @step m _ ih =>
      rcases h.goes m with hsame | hstep
      · rw [hsame] at hstage
        exact ih hstage
      · exact ih (hstep.waiting hstage)

/-- Nobody overtakes a call that is alone. -/
theorem Alone.not_overtaken {h : History calls σ₀} (halone : h.Alone i a m)
    (hwaiting : (h.state a).stage i = .waiting) (left : ℕ) (j : ι) :
    ¬ h.Overtaken m i left j := by
  intro hovertaken
  rcases hovertaken.between with
    ⟨t, first, middle, last, hfirst, hlast, hend, hlooks, hcommits, hconflicts⟩
  have hcome : a ≤ first := by
    by_contra hbefore
    have hstage := h.waiting_of_waiting (by omega : first ≤ a) hwaiting
    rw [hlooks.admitted] at hstage
    cases hstage
  rcases hcommits.moved with ⟨t', seq, hlogged, happlied⟩
  have hstill := halone middle (by omega) (by omega) j hovertaken.other
  rw [hlogged, happlied] at hstill
  cases hstill

/-! ## Conflicts and their causes -/

/-- Conflicts come from what other calls commit. -/
structure Contended (h : History calls (start s d)) : Prop where
  /-- Whoever is abandoned has been overtaken in each attempt, by another call each time. -/
  abandoned : ∀ m i n last,
    (h.state m).stage i = .returned (.error (.storage (.abandoned n last))) →
      n = s.maxAttempts ∧ 1 ≤ n ∧
        ∃ rival : Fin n → ι, Function.Injective rival ∧
          ∀ k : Fin n, h.Overtaken m i k (rival k)
  reading : ∀ m i, (calls i).batch.isReadOnly = true → h.Unhindered m i
  alone : ∀ a m i, (h.state a).stage i = .waiting → h.Alone i a m → h.Unhindered m i
  disjoint : ∀ i, (∀ j, j ≠ i → (calls i).batch.written.Disjoint (calls j).batch.written) →
    ∀ m, h.Unhindered m i

/-- Calls at a store that was opened are in conflict only if others have changed what they write,
whatever turns they take. -/
theorem contended_of_openAt {d₀ : Disk} {path : String} {settings : StorageSettings}
    (hopen : VersionedStore.openAt d₀ path settings = (d, .ok s)) (h : History calls (start s d)) :
    Contended h := by
  have hattempts := (VersionedStore.ready_of_openAt hopen).2
  refine ⟨?_, ?_, ?_, ?_⟩
  · intro m i n last hstage
    have hpast := h.past m i
    rw [hstage] at hpast
    rcases hpast n last rfl with ⟨hn, rivals, hlost⟩
    have hlength : rivals.length = n := by
      have hlength := hlost.length
      omega
    subst hlength
    refine ⟨hn, by omega, rivals.get, List.nodup_iff_injective_get.1 hlost.nodup, ?_⟩
    intro k
    have hovertaken := hlost.overtaken k _ (List.getElem?_eq_getElem k.isLt)
    rwa [Nat.zero_add] at hovertaken
  · intro m i hread
    refine unhindered_of_not_overtaken hattempts ?_
    intro left j hovertaken
    rcases hovertaken.shared with ⟨q, hq, -⟩
    rw [Batch.isReadOnly_iff.1 hread] at hq
    cases hq
  · intro a m i hwaiting halone
    exact unhindered_of_not_overtaken hattempts (halone.not_overtaken hwaiting)
  · intro i hdisjoint m
    refine unhindered_of_not_overtaken hattempts ?_
    intro left j hovertaken
    rcases hovertaken.shared with ⟨q, hq, hq'⟩
    exact hdisjoint j hovertaken.other hq hq'

/-- With a single attempt, a call that another one overtakes is abandoned. -/
theorem contended_of_single_attempt :
    ∃ (d : Disk) (h : History bothUpdate (start (attempting 1) d)) (m : ℕ),
      VersionedStore.openAt .empty "store" ⟨1, 5000, true⟩ = (d, .ok (attempting 1)) ∧
        (h.state m).stage true =
          .returned (.error (.storage (.abandoned 1 (.changedKey "/a")))) ∧
        Contended h := by
  have hopens : ∃ d, VersionedStore.openAt .empty "store" ⟨1, 5000, true⟩ =
      (d, .ok (attempting 1)) := ⟨_, rfl⟩
  rcases hopens with ⟨d, hopen⟩
  rcases run_contended 0 d with ⟨σ, hrun, -, hstage, -, hstore⟩
  have hrun' := hrun.tail (.abandon hstage)
  rcases exists_of_run hrun' with ⟨h, m, hm⟩
  refine ⟨d, h, m, hopen, ?_, contended_of_openAt hopen h⟩
  rw [hm, stage_move, hstore]
  rfl

end History
end System
end GuardedStore
