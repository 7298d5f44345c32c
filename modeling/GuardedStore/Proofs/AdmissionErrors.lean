import GuardedStore.Proofs.UpdateOrder
import Mathlib.Data.List.Forall2

/-!
# AdmissionErrors — what is admitted, and what is said of the rest

A request is admitted if all texts that it names are permitted, and otherwise there is one error for
each that is not, in the order in which they are named, and none for the others
(`User.errors_of_batchOf`).  Each error says what is wrong with its text (`User.Objects`).  What is
admitted are the keys that the texts spell, and a key that is spelled by several updates has the
value of the last of them (`User.batchOf_exact`).
-/

namespace GuardedStore

variable {u : User} {action : Action} {raw : String} {key : Key} {r : Wire.Request} {b : Batch}
  {errors : List StoreError} {e : StoreError}

theorem SortedMap.ascending_keys {α β : Type} [Ord α] (m : SortedMap α β) :
    m.keys.Pairwise (fun a b => compare a b = .lt) := by
  rw [keys, List.pairwise_map]
  exact m.ascending

namespace Key

theorem normal?_eq_some_iff {q : String} :
    normal? raw = some q ↔ ∃ key, create raw = .ok key ∧ key.text = q := by
  rw [normal?]
  cases hcreate : create raw with
  | error fault => simp [Except.toOption]
  | ok key => simp [Except.toOption]

/-- A text spells a key if it is accepted as that key. -/
theorem spells_text_iff : Spells raw key.text ↔ create raw = .ok key := by
  rw [Spells, normal?_eq_some_iff]
  constructor
  · rintro ⟨key', hcreate, htext⟩
    rw [hcreate, text_injective htext]
  · intro hcreate
    exact ⟨key, hcreate, rfl⟩

theorem spelled_text (key : Key) (l : List (String × String)) :
    spelled key.text l = l.filter (fun e => create e.1 = .ok key) := by
  refine List.filter_congr ?_
  intro e _
  exact decide_eq_decide.2 spells_text_iff

end Key

namespace User

/-- The error that there is about a text which is not permitted: it spells no key, or a key to which
the user may not do what is asked. -/
inductive Objects (u : User) (action : Action) (raw : String) : StoreError → Prop
  | invalid {fault : Key.Fault} (h : Key.create raw = .error fault) :
      Objects u action raw (.invalidKey raw fault)
  | denied {key : Key} (h : Key.create raw = .ok key) (hdenied : u.allows action key = false) :
      Objects u action raw (.permissionDenied action.text key.text)

theorem objects_of_authorize (h : u.authorize action raw = .error e) : u.Objects action raw e := by
  unfold authorize at h
  cases hcreate : Key.create raw with
  | error fault =>
      rw [hcreate] at h
      cases h
      exact .invalid hcreate
  | ok key =>
      simp only [hcreate] at h
      split at h
      · cases h
      · rename_i hdenied
        cases h
        exact .denied hcreate (by simpa using hdenied)

instance (u : User) (action : Action) (raw : String) : Decidable (u.Permits action raw) :=
  match h : u.authorize action raw with
  | .ok key => isTrue (permits_iff.2 ⟨key, h⟩)
  | .error _ => isFalse (fun hpermits => by
      rcases permits_iff.1 hpermits with ⟨key, hkey⟩
      rw [h] at hkey
      cases hkey)

section All

variable {α : Type}

/-- There is one error for each text that is not permitted, in the order of the texts. -/
theorem errors_authorizeAll (l : List (String × α)) :
    List.Forall₂ (u.Objects action) ((l.map (·.1)).filter (fun raw => ¬ u.Permits action raw))
      (u.authorizeAll action l).2 := by
  induction l with
  | nil => exact .nil
  | cons entry rest ih =>
      obtain ⟨raw, a⟩ := entry
      rw [List.map_cons]
      cases hraw : u.authorize action raw with
      | ok key =>
          have hpermits : u.Permits action raw := permits_iff.2 ⟨key, hraw⟩
          rw [authorizeAll_cons_ok hraw, List.filter_cons_of_neg (by simpa using hpermits)]
          exact ih
      | error e =>
          have hnot : ¬ u.Permits action raw := by
            intro hpermits
            rcases permits_iff.1 hpermits with ⟨key, hkey⟩
            rw [hraw] at hkey
            cases hkey
          rw [authorizeAll_cons_error hraw, List.filter_cons_of_pos (by simpa using hnot)]
          exact .cons (objects_of_authorize hraw) ih

/-- The keys that are collected are those that permitted texts spell. -/
theorem mem_keys_authorizeAll (l : List (String × α)) :
    key ∈ (u.authorizeAll action l).1.map (·.1) ↔
      ∃ raw ∈ l.map (·.1), u.authorize action raw = .ok key := by
  induction l with
  | nil => simp [authorizeAll]
  | cons entry rest ih =>
      obtain ⟨raw, a⟩ := entry
      rw [List.map_cons, List.exists_mem_cons_iff, ← ih]
      cases hraw : u.authorize action raw with
      | ok key' => simp [authorizeAll_cons_ok hraw, eq_comm]
      | error e => simp [authorizeAll_cons_error hraw]

theorem mem_keys_of_permits {l : List (String × α)}
    (h : ∀ raw ∈ l.map (·.1), u.Permits action raw) :
    key ∈ (u.authorizeAll action l).1.map (·.1) ↔
      ∃ raw ∈ l.map (·.1), Key.create raw = .ok key := by
  rw [mem_keys_authorizeAll]
  constructor
  · rintro ⟨raw, hraw, hauthorized⟩
    exact ⟨raw, hraw, (authorize_eq_ok_iff.1 hauthorized).1⟩
  · rintro ⟨raw, hraw, hcreate⟩
    rcases h raw hraw with ⟨key', hcreate', hallows⟩
    obtain rfl : key = key' := Except.ok.inj (hcreate.symm.trans hcreate')
    exact ⟨raw, hraw, authorize_eq_ok_iff.2 ⟨hcreate, hallows⟩⟩

end All

/-! ## Requests that are admitted -/

theorem exists_batchOf_iff : (∃ b, u.batchOf r = .ok b) ↔ ∀ p ∈ r.named, u.Permits p.1 p.2 := by
  constructor
  · rintro ⟨b, h⟩
    exact (batchOf_eq_ok_iff.1 h).1
  · intro h
    exact ⟨_, batchOf_eq_ok_iff.2 ⟨h, rfl⟩⟩

section Admitted

variable (h : u.batchOf r = .ok b)

include h

theorem mem_read_of_batchOf :
    key ∈ b.read.keys ↔ ∃ raw ∈ r.read.keys, Key.create raw = .ok key := by
  rcases batchOf_eq_ok_iff.1 h with ⟨hnamed, rfl⟩
  rw [admitted, SortedMap.mem_keys_ofList]
  exact mem_keys_of_permits ((forall_named_iff r).1 hnamed).1

theorem mem_update_of_batchOf :
    key ∈ b.update.keys ↔ ∃ raw ∈ r.update.names, Key.create raw = .ok key := by
  rcases batchOf_eq_ok_iff.1 h with ⟨hnamed, rfl⟩
  rw [admitted, SortedMap.mem_keys_ofList]
  exact mem_keys_of_permits ((forall_named_iff r).1 hnamed).2.1

theorem mem_delete_of_batchOf :
    key ∈ b.delete.keys ↔ ∃ raw ∈ r.delete.keys, Key.create raw = .ok key := by
  rcases batchOf_eq_ok_iff.1 h with ⟨hnamed, rfl⟩
  rw [admitted, SortedMap.mem_keys_ofList]
  exact mem_keys_of_permits ((forall_named_iff r).1 hnamed).2.2

end Admitted

/-! ## Requests that are rejected -/

theorem errors_of_batchOf (h : u.batchOf r = .error errors) :
    List.Forall₂ (fun p e => u.Objects p.1 p.2 e)
      (r.named.filter (fun p => ¬ u.Permits p.1 p.2)) errors := by
  have herrors : errors = (u.authorizeAll .read r.read.toList).2 ++
      (u.authorizeAll .read r.update.toList).2 ++ (u.authorizeAll .write r.delete.toList).2 := by
    unfold batchOf at h
    simp only at h
    split at h
    · cases h
    · cases h
      rfl
  -- each of the three lists is named for one action
  have hpart : ∀ (action : Action) (names : List String) (part : List StoreError),
      List.Forall₂ (u.Objects action) (names.filter (fun raw => ¬ u.Permits action raw)) part →
        List.Forall₂ (fun p e => u.Objects p.1 p.2 e)
          ((names.map (fun raw => (action, raw))).filter (fun p => ¬ u.Permits p.1 p.2)) part := by
    intro action names part hobjects
    rw [List.filter_map, List.forall₂_map_left_iff]
    exact hobjects
  rw [herrors, Wire.Request.named, List.filter_append, List.filter_append]
  refine List.rel_append (List.rel_append ?_ ?_) ?_
  · exact hpart _ _ _ (errors_authorizeAll _)
  · exact hpart _ _ _ (errors_authorizeAll _)
  · exact hpart _ _ _ (errors_authorizeAll _)

/-- A request is admitted exactly if all texts that it names are permitted.  Then its batch reads
and deletes the keys that the texts spell, and each update has the value of the last entry that
spells its key.  Otherwise there is one error for each text that is not permitted: first for those
to be read, in order, then for those to be updated, as they were entered, and then for those to be
deleted, in order. -/
theorem batchOf_exact (u : User) (r : Wire.Request) :
    ((∃ b, u.batchOf r = .ok b) ↔ ∀ p ∈ r.named, u.Permits p.1 p.2) ∧
      (∀ b, u.batchOf r = .ok b →
        (∀ key, key ∈ b.read.keys ↔ ∃ raw ∈ r.read.keys, Key.create raw = .ok key) ∧
        (∀ key, b.update.get? key =
          (r.update.toList.filter (fun e => Key.create e.1 = .ok key)).getLast?.map (·.2)) ∧
        ∀ key, key ∈ b.delete.keys ↔ ∃ raw ∈ r.delete.keys, Key.create raw = .ok key) ∧
      (∀ errors, u.batchOf r = .error errors →
        List.Forall₂ (fun p e => u.Objects p.1 p.2 e)
          (r.named.filter (fun p => ¬ u.Permits p.1 p.2)) errors) ∧
      r.read.keys.Pairwise (fun a b => compare a b = .lt) ∧
      r.delete.keys.Pairwise (fun a b => compare a b = .lt) := by
  refine ⟨exists_batchOf_iff, ?_, fun errors => errors_of_batchOf, r.read.ascending_keys,
    r.delete.ascending_keys⟩
  intro b h
  refine ⟨fun key => mem_read_of_batchOf h, ?_, fun key => mem_delete_of_batchOf h⟩
  intro key
  rw [get?_update_of_batchOf h, Key.spelled_text]

/-- A request in which some texts are not permitted and some keys are spelled twice. -/
def mixed : Wire.Request :=
  ⟨.ofMembers ["b", "/a"], .ofList [("//k", "1"), ("", "2"), ("/k/", "3")], .ofMembers ["/k"]⟩

/-- What is left of it without the texts that are not permitted. -/
def mended : Wire.Request := ⟨.ofMembers ["/a"], .ofList [("//k", "1"), ("/k/", "3")], .empty⟩

/-- Texts that are not permitted are all reported, in their order; without them the last spelling
of a key counts. -/
theorem batchOf_exact_mixed :
    (∃ errors, reader.batchOf mixed = .error errors ∧
      List.Forall₂ (fun p e => reader.Objects p.1 p.2 e)
        [(.read, "b"), (.read, ""), (.write, "/k")] errors) ∧
      ∃ b, reader.batchOf mended = .ok b ∧ b.update.get? wantedKey = some "3" := by
  constructor
  · have hrejected : reader.batchOf mixed = .error [.invalidKey "b" .notAbsolute,
        .invalidKey "" .nothing, .permissionDenied "WRITE" "/k"] := rfl
    exact ⟨_, hrejected, (batchOf_exact reader mixed).2.2.1 _ hrejected⟩
  · have hadmitted : reader.batchOf mended = .ok (reader.admitted mended) := rfl
    have hvalue := ((batchOf_exact reader mended).2.1 _ hadmitted).2.1 wantedKey
    exact ⟨_, hadmitted, hvalue⟩

end User
end GuardedStore
