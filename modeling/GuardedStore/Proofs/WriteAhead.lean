import GuardedStore.Proofs.CommitOrder
import GuardedStore.Proofs.Opening

/-!
# WriteAhead — the log is never behind the store

While calls take turns, the file of the log holds the commits that took effect, in their order, and
at most one more: that of the call that has logged it and is about to let it take effect, or that of
a call whose frame could not be written (`Backed`).  After such a failure nothing is added any more.
Few steps have anything to do with the log (`LogStep`).

So whatever is left of the file by a crash at any moment, its commits are those that took effect and
at most one more (`holds_of_crash`).
-/

namespace GuardedStore

/-- Whether the call has logged a commit that has not taken effect. -/
def Stage.ahead : Stage → Bool
  | logged .. => true
  | _ => false

def Stage.ended : Stage → Bool
  | returned _ => true
  | _ => false

namespace System

open Versioned Log

variable {ι : Type} {calls : ι → StoreCall} {c : Committed} {σ σ' : System ι} {s : VersionedStore}
  {d d₁ : Disk} {i j : ι} {b : Batch} {seq : UInt64} {t : Transaction} {frame : ByteArray}
  {base : List (UInt64 × Change)} {order extra : List (ι × UInt64)}
  {floor : ι → List (ι × UInt64)} {stage next : Stage}

theorem commitsOf_append (calls : ι → StoreCall) (order extra : List (ι × UInt64)) :
    commitsOf calls (order ++ extra) = commitsOf calls order ++ commitsOf calls extra :=
  List.map_append

theorem commitsOf_single (hcall : calls i = .perform b) (seq : UInt64) :
    commitsOf calls [(i, seq)] = [(seq, b.change)] := by
  simp [commitsOf, hcall, StoreCall.batch]

/-! ## The next frame -/

theorem lastOf_append (base more : List (UInt64 × Change)) :
    Replay.lastOf 0 (base ++ more) = Replay.lastOf (Replay.lastOf 0 base) more := by
  have hsplit := Committed.seq_applyAll (Committed.empty.applyAll base) more
  rw [← Committed.applyAll_append, Committed.seq_applyAll, Committed.seq_applyAll] at hsplit
  exact hsplit

/-- The number of the next commit is new, as long as there are numbers left. -/
theorem lastOf_lt (h : Ordered calls c floor σ) (hlast : Replay.lastOf 0 base = c.seq)
    (hroom : c.seq.toNat + σ.order.length < 2 ^ 64 - 1)
    (hseq : seq = (after calls c σ.order).seq + 1) :
    Replay.lastOf 0 (base ++ commitsOf calls σ.order) < seq := by
  -- the last number in the file is the last one in memory
  have hbase : Replay.lastOf 0 (base ++ commitsOf calls σ.order) = (after calls c σ.order).seq := by
    rw [lastOf_append, hlast, after, Committed.seq_applyAll]
  have hnow : (after calls c σ.order).seq.toNat = c.seq.toNat + σ.order.length := by
    rw [h.numbered.seq_after]
    exact Numbered.toNat_add (by omega) (Nat.le_refl _)
  rw [hbase, hseq]
  exact lt_next (by omega)

/-- What a call is about to write is the frame of the change of its batch. -/
theorem Ordered.writes (h : Ordered calls c floor σ) (hwrites : σ.Writes calls i frame) :
    ∃ b t seq, calls i = .perform b ∧ σ.stage i = .validated t seq ∧
      σ.store.log.poisoned = false ∧ seq = (after calls c σ.order).seq + 1 ∧ b.change.Fits ∧
      frame = (frameOf (seq, b.change)).encoded ∧ Absent σ.order i := by
  rcases hwrites with ⟨b, t, seq, hcall, hstage, hintact, hframe⟩
  rcases h.validated hstage with ⟨habsent, -, hseq, seen, -, -, rfl, -⟩
  rw [change_write] at hframe
  rcases Frame.encode?_eq_some_iff.1 hframe with ⟨hfit, hencoded⟩
  have hsize : (frameOf (seq, b.change)).bodySize = Frame.overhead + b.change.packedSize :=
    bodySize_frameOf (seq, b.change)
  have hfits : b.change.Fits := by
    unfold Change.Fits
    rw [← hsize]
    exact hfit
  exact ⟨b, _, seq, hcall, hstage, hintact, hseq, hfits, hencoded.symm, habsent⟩

/-- A call that logs its commit adds the change of its batch. -/
theorem Ordered.appends (h : Ordered calls c floor σ) (hstage : σ.stage i = .validated t seq)
    (hlog : σ.store.logCommit σ.disk seq (t.write b) = .ok (s, d)) :
    ∃ log, σ.store.log.append σ.disk seq b.change = .ok (d, log) ∧ s = { σ.store with log } := by
  rcases h.validated hstage with ⟨-, -, -, seen, -, -, ht, -⟩
  rcases VersionedStore.logCommit_inv hlog with ⟨log, happend, hs⟩
  rw [ht, change_write] at happend
  exact ⟨log, happend, hs⟩

/-! ## Steps at the log -/

/-- A step seen from the log: most steps have nothing to do with it, and of the others one adds a
frame, one breaks off, and one lets take effect what has been added. -/
inductive LogStep [DecidableEq ι] (calls : ι → StoreCall) (σ : System ι) : System ι → Prop where
  | move {i : ι} {s : VersionedStore} {stage next : Stage} (hstage : σ.stage i = stage)
      (hlog : s.log = σ.store.log) (hold : stage.ahead = false) (hmoving : stage.ended = false)
      (hnext : next.ahead = false) :
      LogStep calls σ (System.move ⟨s, σ.disk, σ.stage, σ.order⟩ i next)
  | log {i : ι} {b : Batch} {t : Transaction} {seq : UInt64} {s : VersionedStore} {d : Disk}
      (hcall : calls i = .perform b) (hstage : σ.stage i = .validated t seq)
      (hlog : σ.store.logCommit σ.disk seq (t.write b) = .ok (s, d)) :
      LogStep calls σ (System.move ⟨s, d, σ.stage, σ.order⟩ i (.logged t seq))
  | breakOff {i : ι} {frame : ByteArray} {written : Nat} (e : StoreError)
      (hwrites : σ.Writes calls i frame) (hpart : written ≤ frame.size) :
      LogStep calls σ
        (System.move ⟨{ σ.store with log := (σ.store.log.breakOff σ.disk frame written).2 },
          (σ.store.log.breakOff σ.disk frame written).1, σ.stage, σ.order⟩ i
            (.returned (.error e)))
  | apply {i : ι} {t : Transaction} {seq : UInt64} {s : VersionedStore}
      (hstage : σ.stage i = .logged t seq) (hlog : s.log = σ.store.log) :
      LogStep calls σ
        (System.move ⟨s, σ.disk, σ.stage, σ.order ++ [(i, seq)]⟩ i (.applied t))

theorem Step.logStep [DecidableEq ι] (h : Step calls σ σ') : LogStep calls σ σ' := by
  cases h with
  | ask hcall hstage => exact .move hstage rfl rfl rfl rfl
  | allow hstage hopen => exact .move hstage rfl rfl rfl rfl
  | deny hstage hclosed => exact .move hstage rfl rfl rfl rfl
  | answer hcall hstage => exact .move hstage rfl rfl rfl rfl
  | start hcall hstage => exact .move hstage rfl rfl rfl rfl
  | abandon hstage => exact .move hstage rfl rfl rfl rfl
  | approve hstage hopen => exact .move hstage rfl rfl rfl rfl
  | refuse hstage hclosed => exact .move hstage rfl rfl rfl rfl
  | begin hstage => exact .move hstage rfl rfl rfl rfl
  | finish hcall hstage hread => exact .move hstage rfl rfl rfl rfl
  | enter hcall hstage hwrite hfree => exact .move hstage rfl rfl rfl rfl
  | validate hcall hstage hvalid => exact .move hstage rfl rfl rfl rfl
  | retry hcall hstage hconflict => exact .move hstage rfl rfl rfl rfl
  | reject hcall hstage hinvalid hfinal => exact .move hstage rfl rfl rfl rfl
  | log hcall hstage hlog => exact .log hcall hstage hlog
  | refuseLog hcall hstage hlog => exact .move hstage rfl rfl rfl rfl
  | breakOff hwrites hpart => exact .breakOff _ hwrites hpart
  | apply hcall hstage => exact .apply hstage rfl
  | leave hcall hstage => exact .move hstage rfl rfl rfl rfl
  | knock hcall hstage => exact .move hstage rfl rfl rfl rfl
  | enterClosing hstage hfree => exact .move hstage rfl rfl rfl rfl
  | shut hstage => exact .move hstage rfl rfl rfl rfl
  | leaveClosing hcall hstage => exact .move hstage rfl rfl rfl rfl
  | failClosing hstage => exact .move hstage rfl rfl rfl rfl

/-! ## The invariant -/

/-- The file holds the commits that took effect behind those from before, and at most one more. -/
inductive Backed (calls : ι → StoreCall) (base : List (UInt64 × Change)) (σ : System ι) : Prop where
  | level (hlevel : ∀ i, (σ.stage i).ahead = false) (hintact : σ.store.log.poisoned = false)
      (hholds : σ.store.log.Holds σ.disk (base ++ commitsOf calls σ.order) .empty)
  | ahead {i : ι} {t : Transaction} {seq : UInt64} (hstage : σ.stage i = .logged t seq)
      (hintact : σ.store.log.poisoned = false)
      (hholds : σ.store.log.Holds σ.disk (base ++ commitsOf calls (σ.order ++ [(i, seq)])) .empty)
  | broken (extra : List (ι × UInt64)) (torn : ByteArray)
      (hlevel : ∀ i, (σ.stage i).ahead = false) (hbroken : σ.store.log.poisoned = true)
      (hextra : extra = [] ∨ ∃ i seq b e, extra = [(i, seq)] ∧ calls i = .perform b ∧
        σ.stage i = .returned (.error e))
      (hholds : σ.store.log.Holds σ.disk (base ++ commitsOf calls (σ.order ++ extra)) torn)

namespace Backed

theorem start (calls : ι → StoreCall) (h : s.Synced d base) : Backed calls base (start s d) := by
  refine .level (fun _ => rfl) h.intact ?_
  have hnone : base ++ commitsOf calls (System.start s d).order = base := List.append_nil base
  rw [hnone]
  exact h.holds

/-- While a call is about to log its commit, no other one is ahead of the store. -/
theorem level_of_validated (h : Backed calls base σ) (hordered : Ordered calls c floor σ)
    (hstage : σ.stage i = .validated t seq) (hintact : σ.store.log.poisoned = false) :
    (∀ j, (σ.stage j).ahead = false) ∧
      σ.store.log.Holds σ.disk (base ++ commitsOf calls σ.order) .empty := by
  cases h with
  | level hlevel _ hholds => exact ⟨hlevel, hholds⟩
  | ahead hlogged => exact absurd hlogged (hordered.not_logged_of_validated hstage)
  | broken _ _ _ hbroken =>
      rw [hintact] at hbroken
      cases hbroken

/-- What is in the file when the writing of a frame stops. -/
theorem cut (h : Backed calls base σ) (hordered : Ordered calls c floor σ)
    (hlast : Replay.lastOf 0 base = c.seq) (hroom : c.seq.toNat + σ.order.length < 2 ^ 64 - 1)
    (hwrites : σ.Writes calls i frame) {written : Nat} (hpart : written ≤ frame.size) :
    ∃ extra torn, (extra = [] ∨ ∃ seq b, extra = [(i, seq)] ∧ calls i = .perform b) ∧
      σ.store.log.Holds (σ.store.log.breakOff σ.disk frame written).1
        (base ++ commitsOf calls (σ.order ++ extra)) torn := by
  rcases hordered.writes hwrites with ⟨b, t, seq, hcall, hstage, hintact, hseq, hfits, rfl, -⟩
  rcases h.level_of_validated hordered hstage hintact with ⟨-, hholds⟩
  -- either a part is left that will be cut off, or the whole frame
  rcases hholds.cut (lastOf_lt hordered hlast hroom hseq) hfits hpart with ⟨torn, hnone | hone⟩
  · refine ⟨[], torn, .inl rfl, ?_⟩
    rw [List.append_nil]
    exact hnone
  · refine ⟨[(i, seq)], torn, .inr ⟨seq, b, rfl, hcall⟩, ?_⟩
    rw [commitsOf_append, commitsOf_single hcall, ← List.append_assoc]
    exact hone

variable [DecidableEq ι]

theorem ahead_move (hlevel : ∀ j, (σ.stage j).ahead = false) (hnext : next.ahead = false) :
    ∀ j, ((σ.move i next).stage j).ahead = false :=
  forall_stage_move (P := fun _ stage => stage.ahead = false) hnext (fun j _ => hlevel j)

/-- Only the call in the section can be ahead of the store. -/
theorem level_of_alone (hordered : Ordered calls c floor σ) (hin : (σ.stage i).inside = true)
    (hnext : next.ahead = false) :
    ∀ j, ((System.move ⟨s, d, σ.stage, order⟩ i next).stage j).ahead = false := by
  refine forall_stage_move (P := fun _ stage => stage.ahead = false) hnext ?_
  intro j hj
  by_contra hahead
  have hinside : (σ.stage j).inside = true := by
    cases hother : σ.stage j with
    | logged => rfl
    | _ =>
        rw [hother] at hahead
        exact absurd rfl hahead
  exact hj (hordered.alone j i hinside hin)

/-- A step of a call that has nothing to do with the log. -/
theorem move (h : Backed calls base σ) (hstage : σ.stage i = stage) (hlog : s.log = σ.store.log)
    (hold : stage.ahead = false) (hmoving : stage.ended = false) (hnext : next.ahead = false) :
    Backed calls base (System.move ⟨s, σ.disk, σ.stage, σ.order⟩ i next) := by
  cases h with
  | level hlevel hintact hholds =>
      refine .level (ahead_move hlevel hnext) ?_ ?_
      · rw [store_move, hlog, hintact]
      · rw [store_move, hlog]
        exact hholds
  | @ahead j t seq hlogged hintact hholds =>
      have hj : j ≠ i := by
        rintro rfl
        rw [← hstage, hlogged] at hold
        cases hold
      refine .ahead (i := j) ((stage_move_of_ne next hj).trans hlogged) ?_ ?_
      · rw [store_move, hlog, hintact]
      · rw [store_move, hlog]
        exact hholds
  | broken extra torn hlevel hbroken hextra hholds =>
      refine .broken extra torn (ahead_move hlevel hnext) ?_ ?_ ?_
      · rw [store_move, hlog, hbroken]
      · rcases hextra with hnone | ⟨j, seq, b, e, hone, hcall, hfailed⟩
        · exact .inl hnone
        · have hj : j ≠ i := by
            rintro rfl
            rw [← hstage, hfailed] at hmoving
            cases hmoving
          exact .inr ⟨j, seq, b, e, hone, hcall, (stage_move_of_ne next hj).trans hfailed⟩
      · rw [store_move, hlog]
        exact hholds

/-- A call adds its commit to the log. -/
theorem log (h : Backed calls base σ) (hordered : Ordered calls c floor σ)
    (hlast : Replay.lastOf 0 base = c.seq)
    (hroom : c.seq.toNat + σ.order.length < 2 ^ 64 - 1) (hcall : calls i = .perform b)
    (hstage : σ.stage i = .validated t seq)
    (hlog : σ.store.logCommit σ.disk seq (t.write b) = .ok (s, d)) :
    Backed calls base (System.move ⟨s, d, σ.stage, σ.order⟩ i (.logged t seq)) := by
  rcases hordered.validated hstage with ⟨-, -, hseq, -⟩
  rcases hordered.appends hstage hlog with ⟨log, happend, hs⟩
  rcases CommitLog.append_ok happend with ⟨hintact, hfits, hd, hnew⟩
  rcases h.level_of_validated hordered hstage hintact with ⟨-, hholds⟩
  -- the file has one commit more than the store
  have hadded := hholds.append (lastOf_lt hordered hlast hroom hseq) hfits
  refine .ahead (stage_move _) ?_ ?_
  · rw [store_move, hs, hnew]
    exact hintact
  · rw [store_move, order_move, disk_move, commitsOf_append, commitsOf_single hcall, hd, hs,
      ← List.append_assoc]
    exact hadded.of_file (by rw [hnew]) (by rw [hnew])

/-- A frame could not be written. -/
theorem breakOff (h : Backed calls base σ) (hordered : Ordered calls c floor σ)
    (hlast : Replay.lastOf 0 base = c.seq) (hroom : c.seq.toNat + σ.order.length < 2 ^ 64 - 1)
    (hwrites : σ.Writes calls i frame) {written : Nat} (hpart : written ≤ frame.size)
    (e : StoreError) :
    Backed calls base
      (System.move ⟨{ σ.store with log := (σ.store.log.breakOff σ.disk frame written).2 },
        (σ.store.log.breakOff σ.disk frame written).1, σ.stage, σ.order⟩ i
          (.returned (.error e))) := by
  rcases hordered.writes hwrites with ⟨b, t, seq, hcall, hstage, hintact, -⟩
  rcases h.level_of_validated hordered hstage hintact with ⟨hlevel, -⟩
  -- the log is broken from now on, whatever got into the file
  rcases h.cut hordered hlast hroom hwrites hpart with ⟨extra, torn, hextra, hholds⟩
  refine .broken extra torn (ahead_move hlevel rfl) rfl ?_ (hholds.of_file rfl rfl)
  rcases hextra with hnone | ⟨seq, b, hone, hcall⟩
  · exact .inl hnone
  · exact .inr ⟨i, seq, b, e, hone, hcall, stage_move _⟩

/-- The commit that is ahead of the store takes effect. -/
theorem apply (h : Backed calls base σ) (hordered : Ordered calls c floor σ)
    (hstage : σ.stage i = .logged t seq) (hlog : s.log = σ.store.log) :
    Backed calls base
      (System.move ⟨s, σ.disk, σ.stage, σ.order ++ [(i, seq)]⟩ i (.applied t)) := by
  have hin : (σ.stage i).inside = true := by rw [hstage]; rfl
  cases h with
  | level hlevel =>
      have hnot := hlevel i
      rw [hstage] at hnot
      cases hnot
  | broken _ _ hlevel =>
      have hnot := hlevel i
      rw [hstage] at hnot
      cases hnot
  | @ahead j t' seq' hlogged hintact hholds =>
      -- the call that is ahead is the one in the section
      rcases hordered.eq_of_logged hstage hlogged with ⟨rfl, rfl⟩
      refine .level ?_ ?_ ?_
      · exact level_of_alone hordered hin rfl
      · rw [store_move, hlog, hintact]
      · rw [store_move, hlog]
        exact hholds

/-- Every step keeps the log from falling behind. -/
theorem step (h : Backed calls base σ) (hordered : Ordered calls c floor σ)
    (hlast : Replay.lastOf 0 base = c.seq) (hroom : c.seq.toNat + σ.order.length < 2 ^ 64 - 1)
    (hstep : Step calls σ σ') : Backed calls base σ' := by
  cases hstep.logStep with
  | move hstage hlog hold hmoving hnext => exact h.move hstage hlog hold hmoving hnext
  | log hcall hstage hlog => exact h.log hordered hlast hroom hcall hstage hlog
  | breakOff e hwrites hpart => exact h.breakOff hordered hlast hroom hwrites hpart e
  | apply hstage hlog => exact h.apply hordered hstage hlog

/-- Every run keeps the log from falling behind, as long as there are numbers left. -/
theorem run (h : s.Synced d base) (hrun : Run calls (System.start s d) σ)
    (hroom : s.committed.seq.toNat + σ.order.length < 2 ^ 64 - 1) : Backed calls base σ := by
  induction hrun with
  | refl => exact .start calls h
  | tail hrun hstep ih =>
      have hordered := (Ordered.start calls s d).run hrun
      -- no step shortens the order, so there were numbers left before
      have hlength := hstep.order_prefix.length_le
      exact (ih (by omega)).step hordered h.lastOf_eq (by omega) hstep

end Backed
end System
end GuardedStore
