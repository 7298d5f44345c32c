import GuardedStore.Proofs.AllOrNothing

/-!
# Confidentiality — what a user may not read makes no difference

Two services have the same users and roles, and their stores show the same to one user: the same
values under all keys that the user may read (`User.SeesAlike`).  What is under other keys, and of
which kind the stores are, may differ.  Then one call of that user is answered alike by both, and
their stores go on showing the same (`Policy.SeesAlike.respond`); so do any number of calls, as long
as both stores do what they are asked for (`Service.Exchange`).
-/

namespace GuardedStore

open Wire (Request)

variable {u : User} {call : Call} {j : Job} {name password : String} {s s' : Service}
  {d d' : Disk} {chance : Chance} {r : Wire.Response}
  {contents contents' : SortedMap String String}

/-! ## What a user sees -/

/-- Two stores show the same values under all keys that a user may read. -/
def User.SeesAlike (u : User) (contents contents' : SortedMap String String) : Prop :=
  ∀ key, u.allows .read key = true → contents.get? key.text = contents'.get? key.text

namespace User.SeesAlike

/-- A call leaves two stores alike, whatever it writes. -/
theorem writeTo (h : u.SeesAlike contents contents') (call : Call) :
    u.SeesAlike (call.writeTo contents) (call.writeTo contents') := by
  intro key hallows
  simp only [Call.writeTo, SortedMap.get?_eraseAll, SortedMap.get?_insertAll, h key hallows]

/-- A batch that is admitted reads keys only that the user may read. -/
theorem readFrom {r : Request} {b : Batch} (h : u.SeesAlike contents contents')
    (hbatch : u.batchOf r = .ok b) : b.readFrom contents = b.readFrom contents' := by
  refine SortedMap.ext ?_
  intro k
  rw [Batch.get?_readFrom, Batch.get?_readFrom]
  split
  · rename_i hk
    exact h k (User.allows_of_mem_read hbatch hk)
  · rfl

/-- What an admitted call is answered tells nothing that the user may not read. -/
theorem answer (h : u.SeesAlike contents contents') (hjob : call.job u = .ok j) :
    j.answer contents = j.answer contents' := by
  cases Call.admitted_of_job hjob with
  | request hr hbatch => simp only [Job.answer, h.readFrom hbatch]
  | @read _ key hkey => simp only [Job.answer, h key (User.authorize_eq_ok_iff.1 hkey).2]
  | update hkey => rfl
  | delete hkey => rfl

end User.SeesAlike

/-- The user with a name, if there is one, sees two stores alike. -/
def Policy.SeesAlike (p : Policy) (name : String) (contents contents' : SortedMap String String) :
    Prop :=
  ∀ u, p.user? name = some u → u.SeesAlike contents contents'

/-! ## One call -/

/-- What a policy and the contents of a store say to a call, and what it makes of the contents. -/
def Policy.respond (p : Policy) (name password : String) (call : Call)
    (contents : SortedMap String String) : Wire.Response × SortedMap String String :=
  match p.authenticate name password with
  | .error e => (.error e, contents)
  | .ok u => match call.job u with
    | .error response => (response, contents)
    | .ok j => (j.answer contents, call.writeTo contents)

/-- A call of the user is answered alike from contents that the user sees alike, and makes contents
of them that the user sees alike. -/
theorem Policy.SeesAlike.respond {p : Policy} (h : p.SeesAlike name contents contents')
    (password : String) (call : Call) :
    (p.respond name password call contents).1 = (p.respond name password call contents').1 ∧
      p.SeesAlike name (p.respond name password call contents).2
        (p.respond name password call contents').2 := by
  unfold Policy.respond
  cases hauth : p.authenticate name password with
  | error e => exact ⟨rfl, h⟩
  | ok u =>
      have hu := (Policy.authenticate_ok hauth).1
      simp only
      cases hjob : call.job u with
      | error response => exact ⟨rfl, h⟩
      | ok j => exact ⟨(h u hu).answer hjob, fun u' hu' => (h u' hu').writeTo call⟩

namespace Service

/-- The store does what a call asks for, if the call gets as far as that. -/
def StoreHolds (s : Service) (d : Disk) (chance : Chance) (name password : String) (call : Call) :
    Prop :=
  ∀ u j, s.policy.authenticate name password = .ok u → call.job u = .ok j →
    ∃ gate d' r, j.run s.gate d chance = (gate, d', .ok r)

/-- As long as the store holds, policy and contents decide alone what a call comes to. -/
theorem Outcome.eq_respond (ho : Outcome s d chance name password call s' d' r) (h : d.IsSound)
    (hholds : s.StoreHolds d chance name password call) :
    (r, s'.contents d') = s.policy.respond name password call (s.contents d) := by
  unfold Policy.respond
  cases ho with
  | unknown hauth =>
      rw [hauth]
      rfl
  | refused hauth hjob =>
      simp only [hauth, hjob]
      rfl
  | failed hauth hjob hrun =>
      rcases hholds _ _ hauth hjob with ⟨gate, d₁, r, hok⟩
      rw [hrun] at hok
      cases hok
  | answered hauth hjob hrun =>
      rcases Job.written_of_run h hrun with ⟨rfl, hwritten⟩
      simp only [hauth, hjob]
      exact Prod.ext rfl (hwritten.contents.trans (Call.writeTo_of_job hjob _))

/-! ## Many calls -/

/-- What comes of calls that one user makes one after the other, with a password each, while the
store does all that it is asked for: the service, the disk and the response after each call. -/
inductive Exchange (name : String) :
    Service → Disk → List (String × Call) → List (Service × Disk × Wire.Response) → Prop where
  | nil (s : Service) (d : Disk) : Exchange name s d [] []
  | cons {s : Service} {d : Disk} {password : String} {call : Call}
      {calls : List (String × Call)} {after : List (Service × Disk × Wire.Response)}
      (chance : Chance) (hholds : s.StoreHolds d chance name password call)
      (hrest : Exchange name (s.handle d chance name password call).1
        (s.handle d chance name password call).2.1 calls after) :
      Exchange name s d ((password, call) :: calls)
        (s.handle d chance name password call :: after)

/-- Two services whose stores a user sees alike give the same responses to all calls of that user,
who sees their stores alike after each of them. -/
theorem Exchange.confidential {calls : List (String × Call)}
    {after after' : List (Service × Disk × Wire.Response)} (he : Exchange name s d calls after)
    (he' : Exchange name s' d' calls after') (hpolicy : s'.policy = s.policy)
    (h : d.IsSound) (h' : d'.IsSound)
    (halike : s.policy.SeesAlike name (s.contents d) (s'.contents d')) :
    after.map (fun a => a.2.2) = after'.map (fun a => a.2.2) ∧
      List.Forall₂ (fun a a' => s.policy.SeesAlike name (a.1.contents a.2.1)
        (a'.1.contents a'.2.1)) after after' := by
  induction he generalizing s' d' after' with
  | nil s d =>
      cases he'
      exact ⟨rfl, .nil⟩
  | @cons s d password call calls after chance hholds hrest ih =>
      cases he' with
      | @cons _ _ _ _ _ after' chance' hholds' hrest' =>
          have ho := handle_outcome s d chance name password call
          have ho' := handle_outcome s' d' chance' name password call
          have hresponse := ho.eq_respond h hholds
          have hresponse' := ho'.eq_respond h' hholds'
          rw [hpolicy] at hresponse'
          rcases halike.respond password call with ⟨hsame, hnext⟩
          rw [← hresponse, ← hresponse'] at hsame hnext
          simp only at hsame hnext
          rcases ih hrest' (by rw [ho.policy_eq, ho'.policy_eq, hpolicy]) (ho.isSound h)
            (ho'.isSound h') (by rw [ho.policy_eq]; exact hnext) with ⟨hresponses, hcontents⟩
          rw [ho.policy_eq] at hcontents
          exact ⟨by rw [List.map_cons, List.map_cons, hsame, hresponses], .cons hnext hcontents⟩

/-! ## A secret -/

open Versioned VersionedStore

/-- The service, with some values in its store. -/
def firstServiceWith (puts : List (String × String)) : Service :=
  { firstService with
    gate := { firstService.gate with
      store := .versioned { firstStore with committed := Committed.empty.apply 1 ⟨puts, []⟩ } } }

/-- A store that is open and not disturbed is always able to read. -/
theorem storeHolds_read (puts : List (String × String)) :
    (firstServiceWith puts).StoreHolds .empty ⟨0, 0⟩ "u" "p" (.read "/a") := by
  intro u j hauth hjob
  have hpolicy : (firstServiceWith puts).policy = firstService.policy := rfl
  rw [hpolicy, authenticate_firstUser] at hauth
  cases hauth
  have hfirst : (Call.read "/a").job firstUser = .ok (.read firstKey) := rfl
  rw [hfirst] at hjob
  cases hjob
  have hfaults : (firstServiceWith puts).gate.faults = .disabled := rfl
  have hstrikes : FaultInjection.disabled.strikes 0 = false := rfl
  simp only [Job.run, Gate.look, hfaults, hstrikes]
  exact ⟨_, _, _, rfl⟩

/-- A user who may read one key only finds it in both services, whatever is under the other one. -/
theorem confidential_read :
    ∃ after after',
      Exchange "u" (firstServiceWith [("/a", "v")]) .empty [("p", .read "/a")] after ∧
        Exchange "u" (firstServiceWith [("/a", "v"), ("/b", "w")]) .empty [("p", .read "/a")]
          after' ∧ after.map (fun a => a.2.2) = after'.map (fun a => a.2.2) := by
  have hone : Exchange "u" (firstServiceWith [("/a", "v")]) .empty [("p", .read "/a")] _ :=
    .cons ⟨0, 0⟩ (storeHolds_read _) (.nil _ _)
  have htwo : Exchange "u" (firstServiceWith [("/a", "v"), ("/b", "w")]) .empty
      [("p", .read "/a")] _ :=
    .cons ⟨0, 0⟩ (storeHolds_read _) (.nil _ _)
  refine ⟨_, _, hone, htwo,
    (hone.confidential htwo rfl Disk.isSound_empty Disk.isSound_empty ?_).1⟩
  intro u hu key hallows
  obtain rfl : firstUser = u := Option.some.inj hu
  -- the user may write all keys, but read a single one
  have hkey : key.text = "/a" := by
    simpa [User.allows, firstUser, Config.writer, Config.writing, SortedMap.values,
      SortedMap.singleton, Role.allows, Grant.allows, Key.Pattern.covers] using hallows
  rw [hkey]
  rfl

end Service
end GuardedStore
