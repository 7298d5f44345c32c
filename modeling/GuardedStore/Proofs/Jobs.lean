import GuardedStore.Access.Service
import GuardedStore.Proofs.AdmittedBatches
import GuardedStore.Proofs.StoreContents

/-!
# Jobs — what a call comes to

A call of a user who is known is refused, or it is admitted and becomes a job for the store
(`Call.job`, `Service.serve_eq`).  It is admitted exactly if it makes sense and the user is
permitted all that it names (`Call.job_ok_iff`).  A job fails in the store and leaves it
untouched, or it is answered from the contents and writes to them (`Job.run_cases`).

`Service.handle_outcome` puts this together: four ways in which a call can end.
-/

namespace GuardedStore

/-! ## Jobs -/

/-- What an admitted call has done in the store. -/
inductive Job where
  | request (b : Batch)
  | read (key : Key)
  | update (key : Key) (value : String)
  | delete (key : Key)

variable {u : User} {call : Call} {j : Job} {d d' : Disk} {g g' : Gate} {chance : Chance}

namespace Job

/-- The batch that does what a job does. -/
def batch : Job → Batch
  | request b => b
  | read key => .reading key
  | update key value => .updating key value
  | delete key => .deleting key

/-- What is answered to a job from the contents of the store. -/
def answer (contents : SortedMap String String) : Job → Wire.Response
  | request b => .values (Gate.resultOf (b.readFrom contents))
  | read key => match contents.get? key.text with
    | some value => .text value
    | none => .error (.notFound key.text)
  | update _ _ => .empty
  | delete _ => .empty

/-- Has a job done in the store. -/
def run (g : Gate) (d : Disk) (chance : Chance) :
    Job → Gate × Disk × Except StoreError Wire.Response
  | request b =>
      let (g, d, values) := g.perform d chance b
      (g, d, values.map (fun values => .values (Gate.resultOf values)))
  | read key =>
      let (g, d, value) := g.look d chance key
      (g, d, value.map (fun
        | some value => .text value
        | none => .error (.notFound key.text)))
  | update key value =>
      let (g, d, done) := g.perform d chance (.updating key value)
      (g, d, done.map (fun _ => .empty))
  | delete key =>
      let (g, d, done) := g.perform d chance (.deleting key)
      (g, d, done.map (fun _ => .empty))

end Job

namespace Call

/-- The job of a call that is admitted, or the response to one that is not. -/
def job (u : User) : Call → Except Wire.Response Job
  | message bytes => match Wire.Message.parse bytes with
    | .ok (.request r) => match u.batchOf r with
      | .ok b => .ok (.request b)
      | .error errors => .error (.rejection errors)
    | .ok _ => .error (.rejection [.unexpectedMessage "RUD"])
    | .error e => .error (.rejection [e])
  | read raw => match u.authorize .read raw with
    | .ok key => .ok (.read key)
    | .error e => .error (.error e)
  | update raw value => match u.authorize .write raw with
    | .ok key => .ok (.update key value)
    | .error e => .error (.error e)
  | delete raw => match u.authorize .write raw with
    | .ok key => .ok (.delete key)
    | .error e => .error (.error e)

end Call

theorem User.status_of_authorize {action : Action} {raw : String} {e : StoreError}
    (h : u.authorize action raw = .error e) : e.status = 400 := by
  unfold authorize at h
  split at h
  · cases h
    rfl
  · split at h
    · cases h
    · cases h
      rfl

theorem Policy.status_of_authenticate {p : Policy} {name password : String} {e : StoreError}
    (h : p.authenticate name password = .error e) : e.status = 401 := by
  unfold authenticate at h
  split at h
  · cases h
    rfl
  · split at h
    · cases h
    · cases h
      rfl

/-- A call is refused, or its job is done. -/
theorem Service.serve_eq (g : Gate) (d : Disk) (chance : Chance) (u : User) (call : Call) :
    serve g d chance u call = match call.job u with
      | .error response => ({ g with metrics := g.metrics.rejection }, d, .ok response)
      | .ok j => j.run g d chance := by
  cases call with
  | message bytes =>
      simp only [serve, Gate.message, Call.job]
      cases hparse : Wire.Message.parse bytes with
      | error e => rfl
      | ok m =>
          cases m with
          | request r =>
              simp only [Gate.request]
              cases hbatch : u.batchOf r with
              | error errors => rfl
              | ok b => rfl
          | _ => rfl
  | read raw =>
      simp only [serve, Gate.read, Call.job]
      cases hkey : u.authorize .read raw with
      | error e => rfl
      | ok key => rfl
  | update raw value =>
      simp only [serve, Gate.update, Call.job]
      cases hkey : u.authorize .write raw with
      | error e => rfl
      | ok key => rfl
  | delete raw =>
      simp only [serve, Gate.delete, Call.job]
      cases hkey : u.authorize .write raw with
      | error e => rfl
      | ok key => rfl

/-! ## What calls name -/

/-- The request that bytes write, if they write one. -/
def Wire.Request.ofBytes? (bytes : List UInt8) : Option Wire.Request :=
  match Message.parse bytes with
  | .ok (.request r) => some r
  | _ => none

namespace Call

open Wire (Request)

variable {bytes : List UInt8} {r : Request}

/-- A call makes sense unless it is a message that is not a request. -/
def IsMeaningful : Call → Prop
  | message bytes => (Request.ofBytes? bytes).isSome
  | _ => True

/-- The texts that a call names as keys, each with what has to be permitted: a message must be
allowed to read what it updates, and a call for a single key to write it. -/
def named : Call → List (Action × String)
  | message bytes => ((Request.ofBytes? bytes).map Request.named).getD []
  | read raw => [(.read, raw)]
  | update raw _ => [(.write, raw)]
  | delete raw => [(.write, raw)]

/-- The texts of the keys whose values a call wants to be told. -/
def reads : Call → List String
  | message bytes => ((Request.ofBytes? bytes).map (fun r => r.read.keys)).getD []
  | read raw => [raw]
  | _ => []

/-- The texts and values that a call updates, in its order. -/
def updates : Call → List (String × String)
  | message bytes => ((Request.ofBytes? bytes).map (fun r => r.update.toList)).getD []
  | update raw value => [(raw, value)]
  | _ => []

def deletes : Call → List String
  | message bytes => ((Request.ofBytes? bytes).map (fun r => r.delete.keys)).getD []
  | delete raw => [raw]
  | _ => []

/-- What a call makes of the values under some names: it updates, and then deletes, under the
canonical spellings of its texts. -/
def writeTo (call : Call) (contents : SortedMap String String) : SortedMap String String :=
  (contents.insertAll (Key.normalAll call.updates)).eraseAll
    (call.deletes.filterMap Key.normal?)

theorem job_message (h : Request.ofBytes? bytes = some r) :
    (message bytes).job u = match u.batchOf r with
      | .ok b => .ok (.request b)
      | .error errors => .error (.rejection errors) := by
  unfold Request.ofBytes? at h
  simp only [job]
  split at h
  · rename_i r' hparse
    cases h
    rw [hparse]
  · cases h

theorem job_meaningless (h : Request.ofBytes? bytes = none) :
    ∃ response, (message bytes).job u = .error response := by
  unfold Request.ofBytes? at h
  simp only [job]
  split at h
  · cases h
  · rename_i hnot
    cases hparse : Wire.Message.parse bytes with
    | error e => exact ⟨_, rfl⟩
    | ok m =>
        cases m with
        | request r => exact absurd hparse (hnot r)
        | _ => exact ⟨_, rfl⟩

section KeyJob

variable {action : Action} {raw : String} {toJob : Key → Job}

/-- The job for the key that a text names, if the user may act on it. -/
def keyJob (u : User) (action : Action) (raw : String) (toJob : Key → Job) :
    Except Wire.Response Job :=
  match u.authorize action raw with
  | .ok key => .ok (toJob key)
  | .error e => .error (.error e)

theorem job_read (raw : String) : (read raw).job u = keyJob u .read raw .read := rfl

theorem job_update (raw value : String) :
    (update raw value).job u = keyJob u .write raw (.update · value) := rfl

theorem job_delete (raw : String) : (delete raw).job u = keyJob u .write raw .delete := rfl

theorem keyJob_ok (h : keyJob u action raw toJob = .ok j) :
    ∃ key, u.authorize action raw = .ok key ∧ toJob key = j := by
  unfold keyJob at h
  split at h
  · rename_i key hkey
    exact ⟨key, hkey, Except.ok.inj h⟩
  · cases h

theorem exists_keyJob_iff :
    (∃ j, keyJob u action raw toJob = .ok j) ↔ u.Permits action raw := by
  rw [User.permits_iff, keyJob]
  cases u.authorize action raw <;> simp

theorem status_of_keyJob {response : Wire.Response}
    (h : keyJob u action raw toJob = .error response) : response.status = 400 := by
  unfold keyJob at h
  split at h
  · cases h
  · rename_i e hkey
    cases h
    exact User.status_of_authorize hkey

end KeyJob

/-- A call of a user that is admitted, with its job. -/
inductive Admitted (u : User) : Call → Job → Prop where
  | request {bytes : List UInt8} {r : Request} {b : Batch} (hr : Request.ofBytes? bytes = some r)
      (hbatch : u.batchOf r = .ok b) : Admitted u (.message bytes) (.request b)
  | read {raw : String} {key : Key} (hkey : u.authorize .read raw = .ok key) :
      Admitted u (.read raw) (.read key)
  | update {raw value : String} {key : Key} (hkey : u.authorize .write raw = .ok key) :
      Admitted u (.update raw value) (.update key value)
  | delete {raw : String} {key : Key} (hkey : u.authorize .write raw = .ok key) :
      Admitted u (.delete raw) (.delete key)

theorem admitted_of_job (h : call.job u = .ok j) : Admitted u call j := by
  cases call with
  | message bytes =>
      cases hr : Request.ofBytes? bytes with
      | none =>
          rcases job_meaningless (u := u) hr with ⟨response, hjob⟩
          rw [hjob] at h
          cases h
      | some r =>
          rw [job_message hr] at h
          split at h
          · rename_i b hbatch
            cases h
            exact .request hr hbatch
          · cases h
  | read raw =>
      rw [job_read] at h
      rcases keyJob_ok h with ⟨key, hkey, rfl⟩
      exact .read hkey
  | update raw value =>
      rw [job_update] at h
      rcases keyJob_ok h with ⟨key, hkey, rfl⟩
      exact .update hkey
  | delete raw =>
      rw [job_delete] at h
      rcases keyJob_ok h with ⟨key, hkey, rfl⟩
      exact .delete hkey

/-- A call is admitted exactly if it makes sense and all that it names is permitted. -/
theorem job_ok_iff :
    (∃ j, call.job u = .ok j) ↔ call.IsMeaningful ∧ ∀ p ∈ call.named, u.Permits p.1 p.2 := by
  cases call with
  | message bytes =>
      cases hr : Request.ofBytes? bytes with
      | none =>
          rcases job_meaningless (u := u) hr with ⟨response, hjob⟩
          simp [hjob, IsMeaningful, hr]
      | some r =>
          rw [job_message hr]
          simp only [IsMeaningful, named, hr, Option.isSome_some, Option.map_some,
            Option.getD_some, true_and]
          cases hbatch : u.batchOf r with
          | ok b => simpa using (User.batchOf_eq_ok_iff.1 hbatch).1
          | error errors =>
              simp only [reduceCtorEq, exists_false, false_iff]
              intro hnamed
              rw [User.batchOf_eq_ok_iff.2 ⟨hnamed, rfl⟩] at hbatch
              cases hbatch
  | read raw =>
      simp only [job_read, exists_keyJob_iff, IsMeaningful, named, List.forall_mem_singleton,
        true_and]
  | update raw value =>
      simp only [job_update, exists_keyJob_iff, IsMeaningful, named, List.forall_mem_singleton,
        true_and]
  | delete raw =>
      simp only [job_delete, exists_keyJob_iff, IsMeaningful, named, List.forall_mem_singleton,
        true_and]

/-- The batch of a call writes what the call says. -/
theorem writeTo_of_job (h : call.job u = .ok j) (contents : SortedMap String String) :
    j.batch.writeTo contents = call.writeTo contents := by
  cases admitted_of_job h with
  | request hr hbatch =>
      simp only [writeTo, updates, deletes, hr, Option.map_some, Option.getD_some]
      exact User.writeTo_of_batchOf hbatch contents
  | read hkey => rfl
  | update hkey =>
      have hnormal := Key.normal?_of_create (User.authorize_eq_ok_iff.1 hkey).1
      simp only [writeTo, updates, deletes, Key.normalAll, List.filterMap_cons, hnormal]
      rfl
  | delete hkey =>
      have hnormal := Key.normal?_of_create (User.authorize_eq_ok_iff.1 hkey).1
      simp only [writeTo, updates, deletes, List.filterMap_cons, hnormal]
      rfl

theorem status_of_refused {response : Wire.Response} (h : call.job u = .error response) :
    response.status = 400 := by
  cases call with
  | message bytes =>
      simp only [job] at h
      split at h
      · split at h
        · cases h
        · cases h
          rfl
      · cases h
        rfl
      · cases h
        rfl
  | read raw =>
      rw [job_read] at h
      exact status_of_keyJob h
  | update raw value =>
      rw [job_update] at h
      exact status_of_keyJob h
  | delete raw =>
      rw [job_delete] at h
      exact status_of_keyJob h

end Call

/-! ## What a job does -/

namespace Gate

/-- A job has failed in the store, which it leaves untouched. -/
structure Failed (g g' : Gate) (d d' : Disk) (e : StoreError) : Prop where
  status : e.status = 500
  store : g'.store = g.store
  untouched : g.store.Untouched d d'

/-- A batch has been carried out.  If it has nothing to write, the store is untouched. -/
structure Written (b : Batch) (g g' : Gate) (d d' : Disk) : Prop where
  sound : d'.IsSound
  contents : g'.store.contents d' = b.writeTo (g.store.contents d)
  readOnly : b.isReadOnly = true → g'.store = g.store ∧ g.store.Untouched d d'

theorem perform_cases (h : d.IsSound) (g : Gate) (chance : Chance) (b : Batch) :
    (∃ g' d' e, g.perform d chance b = (g', d', .error e) ∧ Failed g g' d d' e) ∨
      ∃ g' d', g.perform d chance b = (g', d', .ok (b.readFrom (g.store.contents d))) ∧
        Written b g g' d d' := by
  unfold perform
  split
  · exact Or.inl ⟨_, d, _, rfl, rfl, rfl, .refl h _⟩
  · rcases g.store.perform_cases h b with
      ⟨d', e, hperform, hstatus, huntouched⟩ | ⟨store, d', hperform, hsound, hwritten, hread⟩
    · rw [hperform]
      exact Or.inl ⟨_, d', e, rfl, hstatus, rfl, huntouched⟩
    · rw [hperform]
      exact Or.inr ⟨_, d', rfl, hsound, hwritten, hread⟩

/-- The same, if the values are made a response. -/
theorem respond_cases (h : d.IsSound) (g : Gate) (chance : Chance) (b : Batch)
    (f : Values → Wire.Response) :
    (∃ g' d' e, (let (g, d, values) := g.perform d chance b; (g, d, values.map f)) =
        (g', d', .error e) ∧ Failed g g' d d' e) ∨
      ∃ g' d', (let (g, d, values) := g.perform d chance b; (g, d, values.map f)) =
        (g', d', .ok (f (b.readFrom (g.store.contents d)))) ∧ Written b g g' d d' := by
  rcases g.perform_cases h chance b with ⟨g', d', e, hrun, hfailed⟩ | ⟨g', d', hrun, hwritten⟩
  · rw [hrun]
    exact Or.inl ⟨g', d', e, rfl, hfailed⟩
  · rw [hrun]
    exact Or.inr ⟨g', d', rfl, hwritten⟩

theorem look_cases (h : d.IsSound) (g : Gate) (chance : Chance) (key : Key) :
    (∃ g' d' e, g.look d chance key = (g', d', .error e) ∧ Failed g g' d d' e) ∨
      ∃ g' d', g.look d chance key = (g', d', .ok ((g.store.contents d).get? key.text)) ∧
        Written (.reading key) g g' d d' := by
  unfold look
  split
  · exact Or.inl ⟨_, d, _, rfl, rfl, rfl, .refl h _⟩
  · rcases hget : g.store.get d key with ⟨d', answer⟩
    have hcases := g.store.get_cases h key
    rw [hget] at hcases
    rcases hcases with ⟨huntouched, ⟨e, rfl, hstatus⟩ | rfl⟩
    · exact Or.inl ⟨_, d', e, rfl, hstatus, rfl, huntouched⟩
    · exact Or.inr ⟨_, d', rfl, huntouched.sound, huntouched.contents, fun _ => ⟨rfl, huntouched⟩⟩

end Gate

/-- A job fails in the store and leaves it untouched, or it is answered from the contents and its
batch is carried out. -/
theorem Job.run_cases (h : d.IsSound) (j : Job) (g : Gate) (chance : Chance) :
    (∃ g' d' e, j.run g d chance = (g', d', .error e) ∧ g.Failed g' d d' e) ∨
      ∃ g' d', j.run g d chance = (g', d', .ok (j.answer (g.store.contents d))) ∧
        Gate.Written j.batch g g' d d' := by
  cases j with
  | request b => exact g.respond_cases h chance b _
  | read key =>
      simp only [run]
      rcases g.look_cases h chance key with ⟨g', d', e, hrun, hfailed⟩ | ⟨g', d', hrun, hwritten⟩
      · rw [hrun]
        exact Or.inl ⟨g', d', e, rfl, hfailed⟩
      · rw [hrun]
        refine Or.inr ⟨g', d', ?_, hwritten⟩
        simp only [answer]
        cases (g.store.contents d).get? key.text <;> rfl
  | update key value => exact g.respond_cases h chance (.updating key value) _
  | delete key => exact g.respond_cases h chance (.deleting key) _

theorem Job.failed_of_run {e : StoreError} (h : d.IsSound)
    (hrun : j.run g d chance = (g', d', .error e)) : g.Failed g' d d' e := by
  rcases j.run_cases h g chance with ⟨g₁, d₁, e', hcase, hfailed⟩ | ⟨g₁, d₁, hcase, -⟩
  · rw [hrun] at hcase
    cases hcase
    exact hfailed
  · rw [hrun] at hcase
    cases hcase

theorem Job.written_of_run {response : Wire.Response} (h : d.IsSound)
    (hrun : j.run g d chance = (g', d', .ok response)) :
    response = j.answer (g.store.contents d) ∧ Gate.Written j.batch g g' d d' := by
  rcases j.run_cases h g chance with ⟨g₁, d₁, e', hcase, -⟩ | ⟨g₁, d₁, hcase, hwritten⟩
  · rw [hrun] at hcase
    cases hcase
  · rw [hrun] at hcase
    cases hcase
    exact ⟨rfl, hwritten⟩

/-! ## What a call comes to -/

namespace Service

/-- The values in the store of a service. -/
def contents (s : Service) (d : Disk) : SortedMap String String := s.gate.store.contents d

/-- The ways in which a call can end: the user is not known, the call is refused, or its job fails
or is answered. -/
inductive Outcome (s : Service) (d : Disk) (chance : Chance) (name password : String)
    (call : Call) : Service → Disk → Wire.Response → Prop where
  | unknown {e : StoreError} (hauth : s.policy.authenticate name password = .error e) :
      Outcome s d chance name password call
        { s with gate := { s.gate with metrics := s.gate.metrics.authenticationFailure } } d
        (.error e)
  | refused {u : User} {response : Wire.Response}
      (hauth : s.policy.authenticate name password = .ok u) (hjob : call.job u = .error response) :
      Outcome s d chance name password call
        { s with gate := { s.gate with metrics := s.gate.metrics.rejection } } d response
  | failed {u : User} {j : Job} {gate : Gate} {d' : Disk} {e : StoreError}
      (hauth : s.policy.authenticate name password = .ok u) (hjob : call.job u = .ok j)
      (hrun : j.run s.gate d chance = (gate, d', .error e)) :
      Outcome s d chance name password call { s with gate } d' (.error e)
  | answered {u : User} {j : Job} {gate : Gate} {d' : Disk} {response : Wire.Response}
      (hauth : s.policy.authenticate name password = .ok u) (hjob : call.job u = .ok j)
      (hrun : j.run s.gate d chance = (gate, d', .ok response)) :
      Outcome s d chance name password call { s with gate } d' response

theorem handle_outcome (s : Service) (d : Disk) (chance : Chance) (name password : String)
    (call : Call) :
    Outcome s d chance name password call (s.handle d chance name password call).1
      (s.handle d chance name password call).2.1 (s.handle d chance name password call).2.2 := by
  unfold handle authenticate
  cases hauth : s.policy.authenticate name password with
  | error e => exact .unknown hauth
  | ok u =>
      simp only
      rw [serve_eq]
      cases hjob : call.job u with
      | error response => exact .refused hauth hjob
      | ok j =>
          simp only
          rcases hrun : j.run s.gate d chance with ⟨gate, d', e | response⟩
          · exact .failed hauth hjob hrun
          · exact .answered hauth hjob hrun

namespace Outcome

variable {s s' : Service} {name password : String} {r : Wire.Response}

theorem policy_eq (ho : Outcome s d chance name password call s' d' r) : s'.policy = s.policy := by
  cases ho <;> rfl

theorem isSound (ho : Outcome s d chance name password call s' d' r) (h : d.IsSound) :
    d'.IsSound := by
  cases ho with
  | unknown hauth => exact h
  | refused hauth hjob => exact h
  | failed hauth hjob hrun => exact (Job.failed_of_run h hrun).untouched.sound
  | answered hauth hjob hrun => exact (Job.written_of_run h hrun).2.sound

/-- Either nothing is changed, or the call is admitted and changes what it says. -/
theorem contents_cases (ho : Outcome s d chance name password call s' d' r) (h : d.IsSound) :
    s'.contents d' = s.contents d ∨
      ∃ u j, s.policy.authenticate name password = .ok u ∧ call.job u = .ok j ∧
        s'.contents d' = call.writeTo (s.contents d) := by
  cases ho with
  | unknown hauth => exact Or.inl rfl
  | refused hauth hjob => exact Or.inl rfl
  | failed hauth hjob hrun =>
      have hfailed := Job.failed_of_run h hrun
      left
      rw [contents, hfailed.store, hfailed.untouched.contents]
      rfl
  | @answered u j _ _ _ hauth hjob hrun =>
      have hwritten := (Job.written_of_run h hrun).2
      exact Or.inr ⟨u, j, hauth, hjob, hwritten.contents.trans (Call.writeTo_of_job hjob _)⟩

end Outcome

/-- A call whose job is answered. -/
theorem handle_of_run {s : Service} {name password : String} {r : Wire.Response}
    (hauth : s.policy.authenticate name password = .ok u) (hjob : call.job u = .ok j)
    (hrun : j.run s.gate d chance = (g', d', .ok r)) :
    s.handle d chance name password call = ({ s with gate := g' }, d', r) := by
  simp only [handle, authenticate, hauth, serve_eq, hjob, hrun]

end Service
end GuardedStore
