import GuardedStore.Proofs.Attempts
import Mathlib.Logic.Function.Basic
import Mathlib.Logic.Relation

/-!
# Interleaving — calls that take turns at one store

Calls run at the same time.  A call checks that the store is open, looks at what has been committed,
and commits in a section that only one call is in at a time: there it validates its transaction,
adds the commit to the log and lets it take effect.  Between any two of these actions the other
calls may do anything, so each action is a `Step` of its own, made of the functions of the store.

A call that is alone does what the functions of the store say (`run_carryOut`).
-/

namespace GuardedStore

open Versioned Log

/-! ## Calls -/

inductive Query where
  | value (key : Key)
  | all
  | dataSize
  | keyCount

inductive Answer where
  | value (value : Option String)
  | values (values : Values)
  | amount (n : Nat)
  | done

/-- The answer to a query, as long as the store is open. -/
def Query.answer (c : Committed) : Query → Except StoreError Answer
  | value key => .ok (.value (c.view.value? key.text))
  | all => (readStored (c.view.snapshot.toList.map (fun e => (e.1, e.2.value))) .empty).map .values
  | dataSize => .ok (.amount c.valueBytes)
  | keyCount => .ok (.amount c.entries.size)

inductive StoreCall where
  | query (q : Query)
  | perform (batch : Batch)
  | close

/-- What the call writes, if it is one that writes. -/
def StoreCall.batch : StoreCall → Batch
  | perform batch => batch
  | _ => .empty

/-- What the store answers, by its own functions. -/
def VersionedStore.ask (s : VersionedStore) : Query → Except StoreError Answer
  | .value key => (s.get key).map .value
  | .all => s.all.map .values
  | .dataSize => s.dataSize.map .amount
  | .keyCount => s.keyCount.map .amount

/-- What the functions of the store make of a call. -/
def VersionedStore.carryOut (s : VersionedStore) (d : Disk) :
    StoreCall → VersionedStore × Disk × Except StoreError Answer
  | .query q => (s, d, s.ask q)
  | .perform batch =>
      ((s.perform d batch).1, (s.perform d batch).2.1, (s.perform d batch).2.2.map .values)
  | .close => (s.close, d, .ok .done)

theorem VersionedStore.ask_of_open {s : VersionedStore} (hopen : s.ensureOpen = .ok ())
    (q : Query) :
    s.ask q = q.answer s.committed := by
  cases q with
  | value key => simp only [ask, get, begin, hopen]; rfl
  | all => simp only [ask, all, begin, hopen]; rfl
  | dataSize => simp only [ask, dataSize, hopen]; rfl
  | keyCount => simp only [ask, keyCount, hopen]; rfl

theorem VersionedStore.ask_of_closed {s : VersionedStore} {e : StoreError}
    (hclosed : s.ensureOpen = .error e) (q : Query) : s.ask q = .error e := by
  cases q with
  | value key => simp only [ask, get, begin, hclosed]; rfl
  | all => simp only [ask, all, begin, hclosed]; rfl
  | dataSize => simp only [ask, dataSize, hclosed]; rfl
  | keyCount => simp only [ask, keyCount, hclosed]; rfl

/-! ## Stages -/

/-- How far a call has come. -/
inductive Stage where
  | waiting
  | asked
  | reading
  | starting (left : Nat) (last : Conflict)
  | admitted (left : Nat)
  | begun (left : Nat) (t : Transaction)
  | entered (left : Nat) (t : Transaction)
  | validated (t : Transaction) (seq : UInt64)
  | logged (t : Transaction) (seq : UInt64)
  | applied (t : Transaction)
  | closing
  | shutting
  | shut
  | returned (answer : Except StoreError Answer)

/-- Whether the call is in the section that only one call is in at a time. -/
def Stage.inside : Stage → Bool
  | entered .. | validated .. | logged .. | applied _ | shutting | shut => true
  | _ => false

/-- Some calls at a store. -/
structure System (ι : Type) where
  store : VersionedStore
  disk : Disk
  stage : ι → Stage
  /-- The calls whose commits took effect, with the numbers of the commits. -/
  order : List (ι × UInt64)

namespace System

variable {ι : Type} [DecidableEq ι]

/-- No call has come yet. -/
def start (s : VersionedStore) (d : Disk) : System ι := ⟨s, d, fun _ => .waiting, []⟩

/-- Brings a call to a stage. -/
def move (σ : System ι) (i : ι) (stage : Stage) : System ι :=
  { σ with stage := Function.update σ.stage i stage }

section
variable {σ : System ι} {i j : ι}

@[simp] theorem store_move (stage : Stage) : (σ.move i stage).store = σ.store := rfl

@[simp] theorem disk_move (stage : Stage) : (σ.move i stage).disk = σ.disk := rfl

@[simp] theorem order_move (stage : Stage) : (σ.move i stage).order = σ.order := rfl

@[simp] theorem stage_move (stage : Stage) : (σ.move i stage).stage i = stage :=
  Function.update_self ..

theorem stage_move_of_ne (stage : Stage) (h : j ≠ i) : (σ.move i stage).stage j = σ.stage j :=
  Function.update_of_ne h ..

/-- What holds of the new stage of one call and of the stages of the others holds of all. -/
theorem forall_stage_move {P : ι → Stage → Prop} {stage : Stage} (hmoved : P i stage)
    (hrest : ∀ j, j ≠ i → P j (σ.stage j)) (j : ι) : P j ((σ.move i stage).stage j) := by
  by_cases hj : j = i
  · rw [hj, stage_move]
    exact hmoved
  · rw [stage_move_of_ne stage hj]
    exact hrest j hj

@[simp] theorem move_move (stage stage' : Stage) :
    (σ.move i stage).move i stage' = σ.move i stage' := by
  simp [move]

end

/-- The section is free. -/
def Free (σ : System ι) : Prop := ∀ i, (σ.stage i).inside = false

/-- Every call has returned, unless it has not come at all. -/
def Quiet (σ : System ι) : Prop :=
  ∀ i, σ.stage i = .waiting ∨ ∃ answer, σ.stage i = .returned answer

/-- A call is about to add the bytes of a frame to the log. -/
def Writes (calls : ι → StoreCall) (σ : System ι) (i : ι) (frame : ByteArray) : Prop :=
  ∃ b t seq, calls i = .perform b ∧ σ.stage i = .validated t seq ∧
    σ.store.log.poisoned = false ∧ Frame.encode? ⟨seq, (t.write b).change.pack⟩ = some frame

/-! ## Steps -/

/-- One call takes one step. -/
inductive Step (calls : ι → StoreCall) (σ : System ι) : System ι → Prop where
  -- queries
  | ask {i q} (hcall : calls i = .query q) (hstage : σ.stage i = .waiting) :
      Step calls σ (σ.move i .asked)
  | allow {i} (hstage : σ.stage i = .asked) (hopen : σ.store.ensureOpen = .ok ()) :
      Step calls σ (σ.move i .reading)
  | deny {i} {e : StoreError} (hstage : σ.stage i = .asked)
      (hclosed : σ.store.ensureOpen = .error e) : Step calls σ (σ.move i (.returned (.error e)))
  | answer {i q} (hcall : calls i = .query q) (hstage : σ.stage i = .reading) :
      Step calls σ (σ.move i (.returned (q.answer σ.store.committed)))
  -- attempts at a batch, up to the section
  | start {i b} (hcall : calls i = .perform b) (hstage : σ.stage i = .waiting) :
      Step calls σ
        (σ.move i (.starting σ.store.maxAttempts (.described "no attempt was made")))
  | abandon {i last} (hstage : σ.stage i = .starting 0 last) :
      Step calls σ
        (σ.move i (.returned (.error (.storage (.abandoned σ.store.maxAttempts last)))))
  | approve {i left last} (hstage : σ.stage i = .starting (left + 1) last)
      (hopen : σ.store.ensureOpen = .ok ()) : Step calls σ (σ.move i (.admitted left))
  | refuse {i left last} {e : StoreError} (hstage : σ.stage i = .starting (left + 1) last)
      (hclosed : σ.store.ensureOpen = .error e) : Step calls σ (σ.move i (.returned (.error e)))
  | begin {i left} (hstage : σ.stage i = .admitted left) :
      Step calls σ (σ.move i (.begun left σ.store.committed.view))
  | finish {i b left t} (hcall : calls i = .perform b) (hstage : σ.stage i = .begun left t)
      (hread : (t.write b).isReadOnly = true) :
      Step calls σ (σ.move i (.returned (.ok (.values (t.valuesOf b)))))
  | enter {i b left t} (hcall : calls i = .perform b) (hstage : σ.stage i = .begun left t)
      (hwrite : (t.write b).isReadOnly = false) (hfree : σ.Free) :
      Step calls σ (σ.move i (.entered left t))
  -- in the section
  | validate {i b left t seq} (hcall : calls i = .perform b) (hstage : σ.stage i = .entered left t)
      (hvalid : σ.store.validate (t.write b) = .ok seq) : Step calls σ (σ.move i (.validated t seq))
  | retry {i b left t} {c : Conflict} (hcall : calls i = .perform b)
      (hstage : σ.stage i = .entered left t)
      (hconflict : σ.store.validate (t.write b) = .error (.storageConflict c)) :
      Step calls σ
        ({ σ with store := { σ.store with conflicts := σ.store.conflicts + 1 } }.move i
          (.starting left c))
  | reject {i b left t} {e : StoreError} (hcall : calls i = .perform b)
      (hstage : σ.stage i = .entered left t)
      (hinvalid : σ.store.validate (t.write b) = .error e) (hfinal : ∀ c, e ≠ .storageConflict c) :
      Step calls σ (σ.move i (.returned (.error e)))
  | log {i b t seq s d} (hcall : calls i = .perform b) (hstage : σ.stage i = .validated t seq)
      (hlog : σ.store.logCommit σ.disk seq (t.write b) = .ok (s, d)) :
      Step calls σ ({ σ with store := s, disk := d }.move i (.logged t seq))
  | refuseLog {i b t seq} {e : StoreError} (hcall : calls i = .perform b)
      (hstage : σ.stage i = .validated t seq)
      (hlog : σ.store.logCommit σ.disk seq (t.write b) = .error e) :
      Step calls σ (σ.move i (.returned (.error e)))
  -- the system fails to write the frame, or to say that it did
  | breakOff {i} {frame : ByteArray} {written : Nat} {text : String}
      (hwrites : σ.Writes calls i frame) (hpart : written ≤ frame.size) :
      Step calls σ
        ({ σ with
            store := { σ.store with log := (σ.store.log.breakOff σ.disk frame written).2 }
            disk := (σ.store.log.breakOff σ.disk frame written).1 }.move i
          (.returned (.error (.io text))))
  | apply {i b t seq} (hcall : calls i = .perform b) (hstage : σ.stage i = .logged t seq) :
      Step calls σ
        ({ σ with
            store := σ.store.applyCommit seq (t.write b)
            order := σ.order ++ [(i, seq)] }.move i (.applied t))
  | leave {i b t} (hcall : calls i = .perform b) (hstage : σ.stage i = .applied t) :
      Step calls σ (σ.move i (.returned (.ok (.values (t.valuesOf b)))))
  -- closing
  | knock {i} (hcall : calls i = .close) (hstage : σ.stage i = .waiting) :
      Step calls σ (σ.move i .closing)
  | enterClosing {i} (hstage : σ.stage i = .closing) (hfree : σ.Free) :
      Step calls σ (σ.move i .shutting)
  | shut {i} (hstage : σ.stage i = .shutting) :
      Step calls σ ({ σ with store := σ.store.close }.move i .shut)
  | leaveClosing {i} (hcall : calls i = .close) (hstage : σ.stage i = .shut) :
      Step calls σ (σ.move i (.returned (.ok .done)))
  | failClosing {i} {text : String} (hstage : σ.stage i = .shut) :
      Step calls σ (σ.move i (.returned (.error (.io text))))

/-- Any number of steps. -/
abbrev Run (calls : ι → StoreCall) : System ι → System ι → Prop :=
  Relation.ReflTransGen (Step calls)

theorem Step.order_prefix {calls : ι → StoreCall} {σ σ' : System ι} (h : Step calls σ σ') :
    σ.order <+: σ'.order := by
  cases h with
  | apply hcall hstage => exact List.prefix_append ..
  | _ => exact List.prefix_rfl

/-- A store goes on using the log with which it was opened. -/
theorem Step.log_path_eq {calls : ι → StoreCall} {σ σ' : System ι} (h : Step calls σ σ') :
    σ'.store.log.path = σ.store.log.path := by
  cases h with
  | log hcall hstage hlog =>
      rcases VersionedStore.logCommit_inv hlog with ⟨log, happend, rfl⟩
      exact CommitLog.path_of_append happend
  | _ => rfl

theorem Run.log_path_eq {calls : ι → StoreCall} {σ σ' : System ι} (h : Run calls σ σ') :
    σ'.store.log.path = σ.store.log.path := by
  induction h with
  | refl => rfl
  | tail _ hstep ih => exact hstep.log_path_eq.trans ih

/-! ## A call that is alone -/

section Alone

variable {calls : ι → StoreCall} {σ σ' : System ι} {i : ι} {b : Batch} {q : Query}
  {r : VersionedStore × Disk × Except StoreError Answer}

/-- The call has returned, and no other call has moved. -/
structure Ended (σ σ' : System ι) (i : ι) (r : VersionedStore × Disk × Except StoreError Answer) :
    Prop where
  store : σ'.store = r.1
  disk : σ'.disk = r.2.1
  stage : σ'.stage = Function.update σ.stage i (.returned r.2.2)

/-- A call that has returned is not in the section. -/
theorem Ended.free (h : Ended σ σ' i r) (hfree : σ.Free) : σ'.Free := by
  intro j
  rw [h.stage]
  by_cases hj : j = i
  · rw [hj, Function.update_self]
    rfl
  · rw [Function.update_of_ne hj]
    exact hfree j

/-- A call can end in this way. -/
def CanEnd (calls : ι → StoreCall) (σ : System ι) (i : ι)
    (r : VersionedStore × Disk × Except StoreError Answer) : Prop :=
  ∃ σ', Run calls σ σ' ∧ Ended σ σ' i r

theorem CanEnd.last {answer : Except StoreError Answer}
    (h : Step calls σ (σ.move i (.returned answer))) :
    CanEnd calls σ i (σ.store, σ.disk, answer) :=
  ⟨_, .single h, rfl, rfl, rfl⟩

theorem CanEnd.step {stage : Stage} {s : VersionedStore} {d : Disk} {order : List (ι × UInt64)}
    (h : Step calls σ (System.move ⟨s, d, σ.stage, order⟩ i stage))
    (hrest : CanEnd calls (System.move ⟨s, d, σ.stage, order⟩ i stage) i r) :
    CanEnd calls σ i r := by
  rcases hrest with ⟨σ', hrun, hstore, hdisk, hstage⟩
  refine ⟨σ', .head h hrun, hstore, hdisk, ?_⟩
  simpa [move] using hstage

theorem CanEnd.run {stage : Stage} (h : Run calls σ (σ.move i stage))
    (hrest : CanEnd calls (σ.move i stage) i r) : CanEnd calls σ i r := by
  rcases hrest with ⟨σ', hrun, hstore, hdisk, hstage⟩
  refine ⟨σ', h.trans hrun, hstore, hdisk, ?_⟩
  simpa [move] using hstage

theorem Free.move (h : σ.Free) {stage : Stage} (hstage : stage.inside = false) :
    (σ.move i stage).Free :=
  forall_stage_move (P := fun _ stage => stage.inside = false) hstage (fun j _ => h j)

theorem canEnd_query (hcall : calls i = .query q) (hstage : σ.stage i = .waiting) :
    CanEnd calls σ i (σ.store, σ.disk, σ.store.ask q) := by
  refine .step (.ask hcall hstage) ?_
  cases hopen : σ.store.ensureOpen with
  | ok u =>
      rw [VersionedStore.ask_of_open hopen]
      refine .step (.allow (stage_move _) hopen) ?_
      exact .last (.answer hcall (stage_move _))
  | error e =>
      rw [VersionedStore.ask_of_closed hopen]
      exact .last (.deny (stage_move _) hopen)

theorem canEnd_close (hcall : calls i = .close) (hfree : σ.Free) (hstage : σ.stage i = .waiting) :
    CanEnd calls σ i (σ.store.close, σ.disk, .ok .done) := by
  refine .step (.knock hcall hstage) ?_
  refine .step (.enterClosing (stage_move _) (hfree.move rfl)) ?_
  refine .step (.shut (stage_move _)) ?_
  exact .last (.leaveClosing hcall (stage_move _))

/-- A call that has an attempt left begins a transaction. -/
theorem run_begun {left : Nat} {last : Conflict} (hstage : σ.stage i = .starting (left + 1) last)
    (hopen : σ.store.closed = false) :
    Run calls σ (σ.move i (.begun left σ.store.committed.view)) := by
  have happrove : Step calls σ (σ.move i (.admitted left)) :=
    .approve hstage (VersionedStore.ensureOpen_of_open hopen)
  have hbegin : Step calls (σ.move i (.admitted left))
      (σ.move i (.begun left σ.store.committed.view)) := by
    have hstep : Step calls (σ.move i (.admitted left)) _ := .begin (stage_move _)
    rwa [move_move] at hstep
  exact .head happrove (.single hbegin)

/-- A call that has not come begins its first transaction. -/
theorem run_first {left : Nat} (hcall : calls i = .perform b) (hstage : σ.stage i = .waiting)
    (hattempts : σ.store.maxAttempts = left + 1) (hopen : σ.store.closed = false) :
    Run calls σ (σ.move i (.begun left σ.store.committed.view)) := by
  have hstart : Step calls σ
      (σ.move i (.starting (left + 1) (.described "no attempt was made"))) := by
    rw [← hattempts]
    exact .start hcall hstage
  have hrest : Run calls (σ.move i (.starting (left + 1) (.described "no attempt was made"))) _ :=
    run_begun (stage_move _) hopen
  rw [move_move] at hrest
  exact .head hstart hrest

/-- A call that writes comes to the point where it is about to log its commit. -/
theorem run_validated {left : Nat} {last : Conflict} (hcall : calls i = .perform b)
    (hfree : σ.Free) (hstage : σ.stage i = .starting (left + 1) last)
    (hopen : σ.store.closed = false) (hwrite : b.isReadOnly = false) :
    Run calls σ
      (σ.move i (.validated σ.store.committed.view (σ.store.committed.seq + 1))) := by
  have henter : Step calls (σ.move i (.begun left σ.store.committed.view))
      (σ.move i (.entered left σ.store.committed.view)) := by
    have hstep : Step calls (σ.move i (.begun left σ.store.committed.view)) _ :=
      .enter hcall (stage_move _) ((isReadOnly_write _ b).trans hwrite) (hfree.move rfl)
    rwa [move_move] at hstep
  have hvalidate : Step calls (σ.move i (.entered left σ.store.committed.view))
      (σ.move i (.validated σ.store.committed.view (σ.store.committed.seq + 1))) := by
    have hstep : Step calls (σ.move i (.entered left σ.store.committed.view)) _ :=
      .validate hcall (stage_move _) (VersionedStore.validate_view hopen)
    rwa [move_move] at hstep
  exact (run_begun hstage hopen).trans (.head henter (.single hvalidate))

/-- A call that has an attempt left does what one attempt does. -/
theorem canEnd_attempt {left : Nat} {last : Conflict} (hcall : calls i = .perform b)
    (hfree : σ.Free) (hstage : σ.stage i = .starting (left + 1) last) :
    CanEnd calls σ i (match σ.store.attempt σ.disk b with
      | .ok (s, d, values) => (s, d, .ok (.values values))
      | .error e => (σ.store, σ.disk, .error e)) := by
  cases hopen : σ.store.closed with
  | true =>
      rw [VersionedStore.attempt_of_closed hopen]
      exact .last (.refuse hstage (VersionedStore.ensureOpen_of_closed hopen))
  | false =>
      cases hwrite : b.isReadOnly with
      | true =>
          rw [VersionedStore.attempt_of_isReadOnly hopen hwrite, ← valuesOf_view]
          -- a batch that only reads never enters the section
          refine .step (.approve hstage (VersionedStore.ensureOpen_of_open hopen)) ?_
          refine .step (.begin (stage_move _)) ?_
          exact .last (.finish hcall (stage_move _) ((isReadOnly_write _ b).trans hwrite))
      | false =>
          refine .run (run_validated hcall hfree hstage hopen hwrite) ?_
          cases hlog : σ.store.log.append σ.disk (σ.store.committed.seq + 1) b.change with
          | error e =>
              rw [VersionedStore.attempt_of_unlogged hopen hwrite hlog]
              exact .last (.refuseLog hcall (stage_move _) (VersionedStore.logCommit_error _ hlog))
          | ok r =>
              rw [VersionedStore.attempt_of_logged hopen hwrite hlog, ← valuesOf_view,
                ← change_write σ.store.committed]
              -- the commit is logged, takes effect and is acknowledged
              refine .step (.log hcall (stage_move _) (VersionedStore.logCommit_ok _ hlog)) ?_
              refine .step (.apply hcall (stage_move _)) ?_
              exact .last (.leave hcall (stage_move _))

theorem canEnd_perform (hcall : calls i = .perform b) (hfree : σ.Free)
    (hstage : σ.stage i = .waiting) :
    CanEnd calls σ i (σ.store.carryOut σ.disk (.perform b)) := by
  refine .step (.start hcall hstage) ?_
  cases hattempts : σ.store.maxAttempts with
  | zero =>
      have hnone : σ.store.perform σ.disk b = (σ.store, σ.disk,
          .error (.storage
            (.abandoned σ.store.maxAttempts (.described "no attempt was made")))) := by
        rw [VersionedStore.perform, hattempts, VersionedStore.retry, hattempts]
      rw [VersionedStore.carryOut, hnone]
      exact .last (.abandon (stage_move _))
  | succ left =>
      -- the first attempt decides, whether it succeeds or not
      have hfirst := canEnd_attempt (σ := σ.move i (.starting (left + 1)
        (.described "no attempt was made"))) hcall (hfree.move rfl) (stage_move _)
      rw [VersionedStore.carryOut, VersionedStore.perform_eq_attempt (by omega)]
      simp only [store_move, disk_move] at hfirst
      cases hattempt : σ.store.attempt σ.disk b with
      | ok r =>
          rw [hattempt] at hfirst
          exact hfirst
      | error e =>
          rw [hattempt] at hfirst
          exact hfirst

/-- A call that no other call comes between does what the functions of the store say. -/
theorem run_carryOut (calls : ι → StoreCall) (hfree : σ.Free) (hstage : σ.stage i = .waiting) :
    CanEnd calls σ i (σ.store.carryOut σ.disk (calls i)) := by
  cases hcall : calls i with
  | query q => exact canEnd_query hcall hstage
  | perform b => exact canEnd_perform hcall hfree hstage
  | close => exact canEnd_close hcall hfree hstage

end Alone

end System
end GuardedStore
