import GuardedStore.Proofs.AllOrNothing

/-!
# GrantedChanges — no change without a grant

A value under some name is changed only by a call that says so: an update or a deletion of a text
that spells the name (`Call.changes_of_ne`).  In a session of a service, whoever makes such a call
is known to the configuration and has been granted it by a role, together with all else that the
call names (`Config.GrantsChange`).
-/

namespace GuardedStore

open Wire (Request)

variable {call : Call} {q : String} {contents : SortedMap String String} {config : Config}
  {s : Service} {d : Disk}

namespace Call

/-- A call changes what is under a name, for which some action on it must be granted: a message
must be allowed to read what it updates, and to write what it deletes. -/
inductive Changes (q : String) : Call → Action → Prop where
  | messageUpdate {bytes : List UInt8} {r : Request} {raw : String}
      (hr : Request.ofBytes? bytes = some r) (hraw : raw ∈ r.update.names)
      (hq : Key.normal? raw = some q) : Changes q (.message bytes) .read
  | messageDelete {bytes : List UInt8} {r : Request} {raw : String}
      (hr : Request.ofBytes? bytes = some r) (hraw : raw ∈ r.delete.keys)
      (hq : Key.normal? raw = some q) : Changes q (.message bytes) .write
  | update {raw value : String} (hq : Key.normal? raw = some q) :
      Changes q (.update raw value) .write
  | delete {raw : String} (hq : Key.normal? raw = some q) : Changes q (.delete raw) .write

/-- A name whose value is not what it was is spelled by an update or by a deletion. -/
theorem mem_of_ne (h : (call.writeTo contents).get? q ≠ contents.get? q) :
    (∃ raw ∈ call.updates.map (·.1), Key.normal? raw = some q) ∨
      ∃ raw ∈ call.deletes, Key.normal? raw = some q := by
  rw [writeTo, SortedMap.get?_eraseAll, SortedMap.get?_insertAll] at h
  by_cases hdeleted : q ∈ call.deletes.filterMap Key.normal?
  · exact Or.inr (List.mem_filterMap.1 hdeleted)
  · rw [if_neg hdeleted] at h
    left
    rw [← List.mem_filterMap, ← Key.keys_normalAll, ← SortedMap.lastValue?_isSome_iff]
    cases hvalue : SortedMap.lastValue? q (Key.normalAll call.updates) with
    | some v => rfl
    | none =>
        rw [hvalue] at h
        exact absurd rfl h

/-- A call that changes what is under a name names it, and asks for the action on it. -/
theorem changes_of_ne (h : (call.writeTo contents).get? q ≠ contents.get? q) :
    ∃ action raw, call.Changes q action ∧ (action, raw) ∈ call.named ∧
      Key.normal? raw = some q := by
  have hmem := mem_of_ne h
  cases call with
  | message bytes =>
      cases hr : Request.ofBytes? bytes with
      | none => simp [updates, deletes, hr] at hmem
      | some r =>
          simp only [updates, deletes, named, hr, Option.map_some, Option.getD_some] at hmem ⊢
          rcases hmem with ⟨raw, hraw, hq⟩ | ⟨raw, hraw, hq⟩
          · refine ⟨.read, raw, .messageUpdate hr hraw hq, ?_, hq⟩
            unfold Request.named
            simp only [List.mem_append, List.mem_map]
            exact Or.inl (Or.inr ⟨raw, hraw, rfl⟩)
          · refine ⟨.write, raw, .messageDelete hr hraw hq, ?_, hq⟩
            unfold Request.named
            simp only [List.mem_append, List.mem_map]
            exact Or.inr ⟨raw, hraw, rfl⟩
  | read raw => simp [updates, deletes] at hmem
  | update raw value =>
      have hq : Key.normal? raw = some q := by simpa [updates, deletes] using hmem
      exact ⟨.write, raw, .update hq, List.mem_singleton.2 rfl, hq⟩
  | delete raw =>
      have hq : Key.normal? raw = some q := by simpa [updates, deletes] using hmem
      exact ⟨.write, raw, .delete hq, List.mem_singleton.2 rfl, hq⟩

end Call

/-- What stands behind a change of what is under a name: the user is known and has been granted the
change, and the call names nothing that has not been granted. -/
structure Config.GrantsChange (c : Config) (name password : String) (call : Call) (q : String) :
    Prop where
  known : c.Knows name password
  granted : ∃ action key, call.Changes q action ∧ key.text = q ∧ c.Grants name action key
  named : ∀ p ∈ call.named, ∃ key, Key.create p.2 = .ok key ∧ c.Grants name p.1 key

namespace Service

/-- A service on the way: it has been started with a configuration on a sound disk, and then it has
handled calls of whoever made them. -/
inductive Session (config : Config) : Service → Disk → Prop where
  | start {d d' : Disk} {s : Service} (h : d.IsSound) (hstart : start d config = (d', .ok s)) :
      Session config s d'
  | call {s : Service} {d : Disk} (h : Session config s d) (chance : Chance)
      (name password : String) (call : Call) :
      Session config (s.handle d chance name password call).1
        (s.handle d chance name password call).2.1

/-- A service starts as soon as there are a policy and a store. -/
theorem start_eq {d' : Disk} {p : Policy} {kind : StoreKind} {store : Store}
    (hpolicy : config.policy = .ok p) (hkind : config.kind = .ok kind)
    (hopen : Store.openAt d kind config.databaseFile config.storage = (d', .ok store)) :
    start d config = (d', .ok ⟨config, p, ⟨store, config.faults, .none⟩⟩) := by
  simp only [start, hpolicy, hkind, hopen]

theorem start_ok {d' : Disk} (hstart : start d config = (d', .ok s)) :
    config.policy = .ok s.policy ∧ (d.IsSound → d'.IsSound) := by
  unfold start at hstart
  split at hstart
  · cases hstart
  · rename_i policy hpolicy
    split at hstart
    · cases hstart
    · rename_i kind hkind
      split at hstart
      · cases hstart
      · rename_i d₁ store hopen
        cases hstart
        refine ⟨hpolicy, ?_⟩
        intro h
        have hsound := Store.isSound_openAt h kind config.databaseFile config.storage
        rw [hopen] at hsound
        exact hsound

namespace Session

/-- In a session the policy stays that of the configuration, and the disk stays sound. -/
theorem invariant (h : Session config s d) : config.policy = .ok s.policy ∧ d.IsSound := by
  induction h with
  | start h hstart =>
      rcases start_ok hstart with ⟨hpolicy, hsound⟩
      exact ⟨hpolicy, hsound h⟩
  | @call s d h chance name password call ih =>
      have houtcome := handle_outcome s d chance name password call
      exact ⟨by rw [houtcome.policy_eq, ih.1], houtcome.isSound ih.2⟩

/-- Nothing in the store is changed by a call unless it has been granted. -/
theorem granted_of_changed (h : Session config s d) (chance : Chance) (name password : String)
    (call : Call) (q : String)
    (hchanged : ((s.handle d chance name password call).1.contents
      (s.handle d chance name password call).2.1).get? q ≠ (s.contents d).get? q) :
    config.GrantsChange name password call q := by
  rcases h.invariant with ⟨hpolicy, hsound⟩
  rcases (handle_outcome s d chance name password call).contents_cases hsound with
    hsame | ⟨u, j, hauth, hjob, hwritten⟩
  · rw [hsame] at hchanged
    exact absurd rfl hchanged
  · have hu := (Policy.authenticate_ok hauth).1
    have hnamed : ∀ p ∈ call.named, ∃ key, Key.create p.2 = .ok key ∧
        config.Grants name p.1 key := by
      intro p hp
      rcases (Call.job_ok_iff.1 ⟨j, hjob⟩).2 p hp with ⟨key, hkey, hallows⟩
      exact ⟨key, hkey, (Config.allows_iff hpolicy hu).1 hallows⟩
    rw [hwritten] at hchanged
    rcases Call.changes_of_ne hchanged with ⟨action, raw, hchanges, hraw, hq⟩
    rcases hnamed _ hraw with ⟨key, hkey, hgrants⟩
    -- the granted key is the one that the text spells, and so it has the name
    have htext : key.text = q := by
      rw [Key.normal?_of_create hkey] at hq
      exact Option.some.inj hq
    have hknows := Config.knows_of_authenticate hpolicy hauth
    exact ⟨hknows, ⟨action, key, hchanges, htext, hgrants⟩, hnamed⟩

end Session

/-! ## One update -/

open VersionedStore

theorem start_firstService :
    ∃ d, start .empty firstService.config = (d, .ok firstService) := by
  rcases openAt_firstStore with ⟨d, hopen⟩
  have hpolicy : firstService.config.policy = .ok firstService.policy :=
    Config.policy_single
      (Config.CredentialEntry.credential_ofCredential (.hashed .standard "p" []))
  have hkind : firstService.config.kind = .ok .versioned := rfl
  have hstore : Store.openAt .empty .versioned firstService.config.databaseFile
      firstService.config.storage = (d, .ok firstService.gate.store) := by
    have hfile : firstService.config.databaseFile = "store" := rfl
    have hsettings : firstService.config.storage = .standard := rfl
    simp only [Store.openAt, hfile, hsettings, hopen]
    rfl
  exact ⟨d, start_eq hpolicy hkind hstore⟩

/-- The first update is a change, so it has been granted. -/
theorem granted_of_changed_update :
    ∃ d, Session firstService.config firstService d ∧
      firstService.config.GrantsChange "u" "p" (.update "/a" "v") "/a" := by
  rcases start_firstService with ⟨d, hstart⟩
  have hsession : Session firstService.config firstService d := .start Disk.isSound_empty hstart
  refine ⟨d, hsession, hsession.granted_of_changed ⟨0, 0⟩ "u" "p" (.update "/a" "v") "/a" ?_⟩
  -- there was nothing under the name, and now there is what has been put
  rcases run_update d with ⟨gate, d', hrun⟩
  have hwritten := (Job.written_of_run hsession.invariant.2 hrun).2
  have hafter : ({ firstService with gate } : Service).contents d' =
      SortedMap.empty.insert "/a" "v" := hwritten.contents
  rw [handle_of_run authenticate_firstUser rfl hrun, hafter, SortedMap.get?_insert, if_pos rfl]
  exact Option.some_ne_none _

end Service
end GuardedStore
