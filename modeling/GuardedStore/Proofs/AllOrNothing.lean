import GuardedStore.Proofs.ConfiguredPolicy
import GuardedStore.Proofs.Jobs
import GuardedStore.Proofs.Opening

/-!
# AllOrNothing — calls that succeed and calls that do not

A call succeeds exactly if the user is known, the call is permitted in all its parts, the store does
its part, and the value is there if a single one is asked for.  Then the contents of the store are
what the call makes of them, and it is told the values that were there before.  A call that does not
succeed leaves the contents as they are; a store that keeps a log has not written to it.  All this
is `Service.AllOrNothing`.
-/

namespace GuardedStore

variable {u : User} {call : Call} {j : Job} {d d' : Disk} {chance : Chance} {s s' : Service}
  {name password : String} {r : Wire.Response}

/-! ## What a call is told -/

namespace Call

open Wire (Request)

/-- The value is there, if a call reads a single one. -/
def Finds (contents : SortedMap String String) : Call → Prop
  | read raw => ∃ q v, Key.normal? raw = some q ∧ contents.get? q = some v
  | _ => True

/-- What a call that succeeds is told of some contents: the values of all keys that it reads and
that have one, the value of a single key, or nothing. -/
def Tells (contents : SortedMap String String) (body : Wire.Body) : Call → Prop
  | message bytes => ∃ values, body = .message (.result ⟨values⟩) ∧ ∀ q v,
      values.get? q = some v ↔
        q ∈ (message bytes).reads.filterMap Key.normal? ∧ contents.get? q = some v
  | read raw => ∃ q v, Key.normal? raw = some q ∧ contents.get? q = some v ∧ body = .text v
  | _ => body = .empty

/-- The answer to a call that is admitted: what it asks for, unless the one value is missing. -/
theorem answer_of_job (h : call.job u = .ok j) (contents : SortedMap String String) :
    (call.Finds contents ∧ (j.answer contents).status = 200 ∧
        call.Tells contents (j.answer contents).body) ∨
      (¬ call.Finds contents ∧ (j.answer contents).status = 404 ∧ j.batch.isReadOnly = true) := by
  cases admitted_of_job h with
  | request hr hbatch =>
      refine Or.inl ⟨trivial, rfl, _, rfl, ?_⟩
      intro q v
      simp only [reads, hr, Option.map_some, Option.getD_some]
      exact User.get?_result_of_batchOf hbatch contents
  | @read _ key hkey =>
      have hnormal := Key.normal?_of_create (User.authorize_eq_ok_iff.1 hkey).1
      cases hvalue : contents.get? key.text with
      | some v =>
          refine Or.inl ⟨⟨key.text, v, hnormal, hvalue⟩, ?_, key.text, v, hnormal, hvalue, ?_⟩
          · simp only [Job.answer, hvalue]
            rfl
          · simp only [Job.answer, hvalue]
            rfl
      | none =>
          refine Or.inr ⟨?_, ?_, rfl⟩
          · rintro ⟨q, v, hq, hv⟩
            rw [hnormal] at hq
            cases hq
            rw [hvalue] at hv
            cases hv
          · simp only [Job.answer, hvalue]
            rfl
  | update hkey => exact Or.inl ⟨trivial, rfl, rfl⟩
  | delete hkey => exact Or.inl ⟨trivial, rfl, rfl⟩

end Call

/-! ## Success and failure -/

namespace Service

/-- The store does what an admitted call asks for. -/
def Stores (s : Service) (d : Disk) (chance : Chance) (u : User) (call : Call) : Prop :=
  ∃ j gate d' r, call.job u = .ok j ∧ j.run s.gate d chance = (gate, d', .ok r)

/-- What a call comes to: it has its whole effect, or none. -/
structure AllOrNothing (s : Service) (d : Disk) (chance : Chance) (name password : String)
    (call : Call) (s' : Service) (d' : Disk) (r : Wire.Response) : Prop where
  status : r.status ∈ [200, 400, 401, 404, 500]
  success : r.status = 200 ↔ ∃ u, s.policy.authenticate name password = .ok u ∧
    call.IsMeaningful ∧ (∀ p ∈ call.named, u.Permits p.1 p.2) ∧ s.Stores d chance u call ∧
      call.Finds (s.contents d)
  written : r.status = 200 → s'.contents d' = call.writeTo (s.contents d)
  told : r.status = 200 → call.Tells (s.contents d) r.body
  unchanged : r.status ≠ 200 → s'.contents d' = s.contents d
  unlogged : r.status ≠ 200 → s.gate.store.kind = .versioned →
    s'.gate.store = s.gate.store ∧ d' = d

/-- A call that cannot succeed and leaves the store untouched. -/
theorem allOrNothing_of_untouched (hstatus : r.status ∈ [400, 401, 404, 500])
    (hnot : ¬ ∃ u, s.policy.authenticate name password = .ok u ∧ call.IsMeaningful ∧
      (∀ p ∈ call.named, u.Permits p.1 p.2) ∧ s.Stores d chance u call ∧
        call.Finds (s.contents d))
    (hstore : s'.gate.store = s.gate.store) (huntouched : s.gate.store.Untouched d d') :
    AllOrNothing s d chance name password call s' d' r := by
  have hfail : r.status ≠ 200 := by
    intro h
    rw [h] at hstatus
    exact absurd hstatus (by decide)
  refine ⟨List.mem_cons_of_mem _ hstatus, ⟨fun h => absurd h hfail, fun h => absurd h hnot⟩,
    fun h => absurd h hfail, fun h => absurd h hfail, ?_, ?_⟩
  · intro _
    rw [contents, hstore, huntouched.contents]
    rfl
  · intro _ hkind
    exact ⟨hstore, huntouched.disk hkind⟩

theorem Outcome.allOrNothing (h : d.IsSound)
    (houtcome : Outcome s d chance name password call s' d' r) :
    AllOrNothing s d chance name password call s' d' r := by
  cases houtcome with
  | unknown hauth =>
      refine allOrNothing_of_untouched ?_ ?_ rfl (.refl h _)
      · simp [Wire.Response.error, Policy.status_of_authenticate hauth]
      · rintro ⟨u, hknown, -⟩
        rw [hauth] at hknown
        cases hknown
  | refused hauth hjob =>
      refine allOrNothing_of_untouched ?_ ?_ rfl (.refl h _)
      · simp [Call.status_of_refused hjob]
      · rintro ⟨u, hknown, hmeaning, hnamed, -⟩
        rw [hauth] at hknown
        cases hknown
        rcases Call.job_ok_iff.2 ⟨hmeaning, hnamed⟩ with ⟨j, hadmitted⟩
        rw [hjob] at hadmitted
        cases hadmitted
  | failed hauth hjob hrun =>
      have hfailed := Job.failed_of_run h hrun
      refine allOrNothing_of_untouched ?_ ?_ hfailed.store hfailed.untouched
      · simp [Wire.Response.error, hfailed.status]
      · rintro ⟨u', hknown, -, -, ⟨j', _, _, _, hjob', hrun'⟩, -⟩
        rw [hauth] at hknown
        cases hknown
        rw [hjob] at hjob'
        cases hjob'
        rw [hrun] at hrun'
        cases hrun'
  | @answered u j gate _ _ hauth hjob hrun =>
      rcases Job.written_of_run h hrun with ⟨rfl, hwritten⟩
      rcases Call.answer_of_job hjob (s.contents d) with
        ⟨hfinds, hstatus, htells⟩ | ⟨hmissing, hstatus, hread⟩
      · rcases Call.job_ok_iff.1 ⟨j, hjob⟩ with ⟨hmeaning, hnamed⟩
        refine ⟨?_, ⟨fun _ => ?_, fun _ => hstatus⟩, fun _ => ?_, fun _ => htells,
          fun h => absurd hstatus h, fun h => absurd hstatus h⟩
        · exact List.mem_cons.2 (Or.inl hstatus)
        · exact ⟨u, hauth, hmeaning, hnamed, ⟨j, gate, d', _, hjob, hrun⟩, hfinds⟩
        · exact hwritten.contents.trans (Call.writeTo_of_job hjob _)
      · -- the value is missing, and looking for it has changed nothing
        rcases hwritten.readOnly hread with ⟨hstore, huntouched⟩
        refine allOrNothing_of_untouched ?_ ?_ hstore huntouched
        · exact List.mem_of_mem_drop (i := 2) (List.mem_cons.2 (Or.inl hstatus))
        · rintro ⟨u', -, -, -, -, hfinds⟩
          exact hmissing hfinds

/-- Every call succeeds as a whole, or changes nothing. -/
theorem handle_allOrNothing (s : Service) (h : d.IsSound) (chance : Chance)
    (name password : String) (call : Call) :
    AllOrNothing s d chance name password call (s.handle d chance name password call).1
      (s.handle d chance name password call).2.1 (s.handle d chance name password call).2.2 :=
  (handle_outcome s d chance name password call).allOrNothing h

/-! ## One update -/

open VersionedStore

/-- A user with a password, who may write all keys. -/
def firstUser : User := Config.writer (.hashed .standard "p" [])

/-- A service with an empty log and that user. -/
def firstService : Service :=
  ⟨.single (.ofCredential (.hashed .standard "p" [])),
    ⟨.singleton "w" Config.writing, .singleton "u" firstUser⟩,
    ⟨.versioned firstStore, .disabled, .none⟩⟩

theorem authenticate_firstUser : firstService.policy.authenticate "u" "p" = .ok firstUser := by
  have huser : firstService.policy.user? "u" = some firstUser := rfl
  have haccepts : firstUser.credential.accepts "p" = true := Credential.hashed_accepts _ _ _
  simp only [Policy.authenticate, huser, haccepts, if_true]

/-- The first update that the service is asked for is carried out. -/
theorem run_update (d : Disk) :
    ∃ gate d',
      (Job.update firstKey "v").run firstService.gate d ⟨0, 0⟩ = (gate, d', .ok .empty) := by
  have hperform : firstStore.perform d (.updating firstKey "v") = _ :=
    perform_fits rfl (by decide) rfl rfl (fits_updating (by decide))
  have hstrikes : firstService.gate.faults.strikes 0 = false := rfl
  have hstore : firstService.gate.store = .versioned firstStore := rfl
  simp only [Job.run, Gate.perform, hstrikes, hstore, Store.perform, hperform]
  exact ⟨_, _, rfl⟩

/-- An update of a single key by whoever has a name. -/
def afterUpdate (name : String) : Service × Disk × Wire.Response :=
  firstService.handle .empty ⟨0, 0⟩ name "p" (.update "/a" "v")

/-- The update of the user succeeds, and what it has put is all there is in the store; that of
somebody unknown fails and changes nothing. -/
theorem handle_allOrNothing_update :
    ((afterUpdate "u").2.2.status = 200 ∧
        (afterUpdate "u").1.contents (afterUpdate "u").2.1 = SortedMap.empty.insert "/a" "v") ∧
      (afterUpdate "x").2.2.status ≠ 200 ∧
        (afterUpdate "x").1.contents (afterUpdate "x").2.1 = .empty := by
  unfold afterUpdate
  have hdone := handle_allOrNothing firstService Disk.isSound_empty ⟨0, 0⟩ "u" "p"
    (.update "/a" "v")
  have hpermits : ∀ p ∈ (Call.update "/a" "v").named, firstUser.Permits p.1 p.2 := by
    intro p hp
    rw [List.mem_singleton.1 hp]
    exact ⟨firstKey, rfl, rfl⟩
  have hstores : firstService.Stores .empty ⟨0, 0⟩ firstUser (.update "/a" "v") := by
    rcases run_update .empty with ⟨gate, d, hrun⟩
    exact ⟨.update firstKey "v", gate, d, .empty, rfl, hrun⟩
  have hok := hdone.success.2
    ⟨firstUser, authenticate_firstUser, trivial, hpermits, hstores, trivial⟩
  have hundone := handle_allOrNothing firstService Disk.isSound_empty ⟨0, 0⟩ "x" "p"
    (.update "/a" "v")
  have hfail := mt hundone.success.1 (by rintro ⟨u, hauth, -⟩; cases hauth)
  exact ⟨⟨hok, hdone.written hok⟩, hfail, hundone.unchanged hfail⟩

end Service
end GuardedStore
