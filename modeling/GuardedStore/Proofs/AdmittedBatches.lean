import GuardedStore.Access.Gate
import GuardedStore.Proofs.BatchChange

/-!
# AdmittedBatches — what an admitted request amounts to

A request is admitted exactly if the user is permitted to do to each named text what the request
asks (`User.batchOf_eq_ok_iff`).  Its batch then writes and reads what the texts spell: all entries
under one key come to the last of them, whichever way the key is spelled
(`User.writeTo_of_batchOf`, `User.get?_result_of_batchOf`).
-/

namespace GuardedStore

variable {u : User} {action : Action} {raw q v : String} {key k : Key} {r : Wire.Request}
  {b : Batch} {contents : SortedMap String String}

/-! ## Maps of renamed entries -/

namespace SortedMap

variable {α β γ : Type} [DecidableEq α] [DecidableEq γ] {f : α → γ} {l l' : List (α × β)} {c : γ}

theorem lastValue?_map (hf : Function.Injective f) (k : α) (l : List (α × β)) :
    lastValue? (f k) (l.map (fun e => (f e.1, e.2))) = lastValue? k l := by
  induction l with
  | nil => rfl
  | cons e rest ih =>
      obtain ⟨k', v⟩ := e
      simp only [List.map_cons, lastValue?, ih, hf.eq_iff]

omit [DecidableEq α] in
theorem lastValue?_map_eq_none (hc : ∀ k, f k ≠ c) (l : List (α × β)) :
    lastValue? c (l.map (fun e => (f e.1, e.2))) = none := by
  rw [← Option.not_isSome_iff_eq_none, lastValue?_isSome_iff, List.map_map]
  intro hmem
  rcases List.mem_map.1 hmem with ⟨e, -, he⟩
  exact hc e.1 he

/-- Lists that agree on the last entries of keys agree on those of renamed keys. -/
theorem lastValue?_map_congr (hf : Function.Injective f)
    (h : ∀ k, lastValue? k l = lastValue? k l') (c : γ) :
    lastValue? c (l.map (fun e => (f e.1, e.2))) =
      lastValue? c (l'.map (fun e => (f e.1, e.2))) := by
  by_cases hc : ∃ k, f k = c
  · rcases hc with ⟨k, rfl⟩
    rw [lastValue?_map hf, lastValue?_map hf, h k]
  · have hnot : ∀ k, f k ≠ c := fun k hk => hc ⟨k, hk⟩
    rw [lastValue?_map_eq_none hnot, lastValue?_map_eq_none hnot]

variable [Ord α] [Std.TransOrd α] [Std.LawfulEqOrd α]

theorem lastValue?_toList_ofList (l : List (α × β)) (k : α) :
    lastValue? k (ofList l).toList = lastValue? k l := by
  rw [lastValue?_toList, get?_ofList]

theorem mem_keys_ofList {k : α} : k ∈ (ofList l).keys ↔ k ∈ l.map (·.1) := by
  rw [mem_keys_iff, get?_ofList, lastValue?_isSome_iff]

end SortedMap

namespace Key

theorem text_injective : Function.Injective text := fun _ _ h => ext h

/-! ## Texts that spell keys -/

/-- The canonical spelling of the key that a text spells. -/
def normal? (raw : String) : Option String := (create raw).toOption.map text

/-- The entries of a list under canonical spellings; texts that spell no key are left out. -/
def normalAll {α : Type} (l : List (String × α)) : List (String × α) :=
  l.filterMap (fun e => (normal? e.1).map (fun q => (q, e.2)))

theorem normal?_of_create (h : create raw = .ok key) : normal? raw = some key.text := by
  rw [normal?, h]
  rfl

theorem keys_normalAll {α : Type} (l : List (String × α)) :
    (normalAll l).map (·.1) = (l.map (·.1)).filterMap normal? := by
  simp only [normalAll, List.map_filterMap, List.filterMap_map]
  refine List.filterMap_congr ?_
  intro e _
  cases h : normal? e.1 <;> simp [h]

end Key

/-! ## Permission -/

/-- A text spells a key to which the user may do something. -/
def User.Permits (u : User) (action : Action) (raw : String) : Prop :=
  ∃ key, Key.create raw = .ok key ∧ u.allows action key = true

/-- The texts that a request names as keys, each with what has to be permitted. -/
def Wire.Request.named (r : Wire.Request) : List (Action × String) :=
  r.read.keys.map (fun raw => (.read, raw)) ++ r.update.names.map (fun raw => (.read, raw)) ++
    r.delete.keys.map (fun raw => (.write, raw))

namespace User

theorem authorize_eq_ok_iff :
    u.authorize action raw = .ok key ↔ Key.create raw = .ok key ∧ u.allows action key = true := by
  unfold authorize
  cases Key.create raw with
  | error fault => simp
  | ok key' =>
      simp only
      split
      · rename_i hallows
        constructor
        · intro h
          cases h
          exact ⟨rfl, hallows⟩
        · rintro ⟨h, -⟩
          cases h
          rfl
      · rename_i hdenied
        constructor
        · intro h
          cases h
        · rintro ⟨h, hallows⟩
          cases h
          exact absurd hallows hdenied

theorem permits_iff : u.Permits action raw ↔ ∃ key, u.authorize action raw = .ok key := by
  simp only [Permits, authorize_eq_ok_iff]

section All

variable {α : Type} {a : α} {rest : List (String × α)}

theorem authorizeAll_cons_ok (h : u.authorize action raw = .ok key) :
    u.authorizeAll action ((raw, a) :: rest) =
      ((key, a) :: (u.authorizeAll action rest).1, (u.authorizeAll action rest).2) := by
  simp only [authorizeAll, h]

theorem authorizeAll_cons_error {e : StoreError} (h : u.authorize action raw = .error e) :
    u.authorizeAll action ((raw, a) :: rest) =
      ((u.authorizeAll action rest).1, e :: (u.authorizeAll action rest).2) := by
  simp only [authorizeAll, h]

/-- There are no errors exactly if all texts are permitted. -/
theorem errors_authorizeAll_eq_nil_iff (l : List (String × α)) :
    (u.authorizeAll action l).2 = [] ↔ ∀ raw ∈ l.map (·.1), u.Permits action raw := by
  induction l with
  | nil => simp [authorizeAll]
  | cons e rest ih =>
      obtain ⟨raw, a⟩ := e
      rw [List.map_cons, List.forall_mem_cons, permits_iff]
      cases hraw : u.authorize action raw with
      | error e => simp [authorizeAll_cons_error hraw]
      | ok key => simp [authorizeAll_cons_ok hraw, ih]

theorem keys_authorizeAll (l : List (String × α)) (h : ∀ raw ∈ l.map (·.1), u.Permits action raw) :
    (u.authorizeAll action l).1.map (fun e => (e.1.text, e.2)) = Key.normalAll l := by
  induction l with
  | nil => rfl
  | cons e rest ih =>
      obtain ⟨raw, a⟩ := e
      rw [List.map_cons, List.forall_mem_cons, permits_iff] at h
      rcases h with ⟨⟨key, hraw⟩, hrest⟩
      have hnormal := Key.normal?_of_create (authorize_eq_ok_iff.1 hraw).1
      rw [authorizeAll_cons_ok hraw, List.map_cons, ih hrest, Key.normalAll, Key.normalAll,
        List.filterMap_cons_some (by rw [hnormal]; rfl)]

theorem allows_of_mem_authorizeAll (l : List (String × α))
    (hmem : key ∈ (u.authorizeAll action l).1.map (·.1)) : u.allows action key = true := by
  induction l with
  | nil => simp [authorizeAll] at hmem
  | cons e rest ih =>
      obtain ⟨raw, a⟩ := e
      cases hraw : u.authorize action raw with
      | error e =>
          rw [authorizeAll_cons_error hraw] at hmem
          exact ih hmem
      | ok key' =>
          rw [authorizeAll_cons_ok hraw] at hmem
          rcases List.mem_cons.1 hmem with rfl | hmem
          · exact (authorize_eq_ok_iff.1 hraw).2
          · exact ih hmem

end All

/-! ## Batches of requests -/

theorem forall_named_iff (r : Wire.Request) :
    (∀ p ∈ r.named, u.Permits p.1 p.2) ↔
      (∀ raw ∈ r.read.toList.map (·.1), u.Permits .read raw) ∧
        (∀ raw ∈ r.update.toList.map (·.1), u.Permits .read raw) ∧
          ∀ raw ∈ r.delete.toList.map (·.1), u.Permits .write raw := by
  unfold Wire.Request.named
  simp only [List.forall_mem_append, List.forall_mem_map, SortedMap.keys, OrderedEntries.names,
    and_assoc]

/-- The batch of a request that is admitted. -/
def admitted (u : User) (r : Wire.Request) : Batch :=
  ⟨.ofList (u.authorizeAll .read r.read.toList).1, .ofList (u.authorizeAll .read r.update.toList).1,
    .ofList (u.authorizeAll .write r.delete.toList).1⟩

/-- A request is admitted exactly if all texts that it names are permitted. -/
theorem batchOf_eq_ok_iff :
    u.batchOf r = .ok b ↔ (∀ p ∈ r.named, u.Permits p.1 p.2) ∧ b = u.admitted r := by
  rw [forall_named_iff, ← errors_authorizeAll_eq_nil_iff, ← errors_authorizeAll_eq_nil_iff,
    ← errors_authorizeAll_eq_nil_iff]
  unfold batchOf admitted
  simp only [List.isEmpty_iff, List.append_eq_nil_iff]
  split
  · rename_i hnone
    constructor
    · intro h
      cases h
      exact ⟨⟨hnone.1.1, hnone.1.2, hnone.2⟩, rfl⟩
    · rintro ⟨-, rfl⟩
      rfl
  · rename_i hsome
    constructor
    · intro h
      cases h
    · rintro ⟨⟨hread, hupdate, hdelete⟩, -⟩
      exact absurd ⟨⟨hread, hupdate⟩, hdelete⟩ hsome

variable (h : u.batchOf r = .ok b)

include h

theorem allows_of_mem_read (hk : k ∈ b.read.keys) : u.allows .read k = true := by
  rcases batchOf_eq_ok_iff.1 h with ⟨-, rfl⟩
  exact allows_of_mem_authorizeAll _ (SortedMap.mem_keys_ofList.1 hk)

theorem lastValue?_updates_of_batchOf (q : String) :
    SortedMap.lastValue? q b.updates = SortedMap.lastValue? q (Key.normalAll r.update.toList) := by
  rcases batchOf_eq_ok_iff.1 h with ⟨hnamed, rfl⟩
  rw [← keys_authorizeAll _ ((forall_named_iff r).1 hnamed).2.1]
  exact SortedMap.lastValue?_map_congr Key.text_injective (SortedMap.lastValue?_toList_ofList _) q

theorem mem_deletions_of_batchOf (q : String) :
    q ∈ b.deletions ↔ q ∈ r.delete.keys.filterMap Key.normal? := by
  rcases batchOf_eq_ok_iff.1 h with ⟨hnamed, rfl⟩
  rw [SortedMap.keys, ← Key.keys_normalAll,
    ← keys_authorizeAll _ ((forall_named_iff r).1 hnamed).2.2]
  simp only [Batch.deletions, admitted, List.map_map, List.mem_map, SortedMap.mem_keys_ofList,
    Function.comp_apply]
  constructor
  · rintro ⟨k, ⟨e, he, rfl⟩, rfl⟩
    exact ⟨e, he, rfl⟩
  · rintro ⟨e, he, rfl⟩
    exact ⟨e.1, ⟨e, he, rfl⟩, rfl⟩

/-- What is written are the updates in their order, and then the deletions, under the canonical
spellings of the texts. -/
theorem writeTo_of_batchOf (contents : SortedMap String String) :
    b.writeTo contents = (contents.insertAll (Key.normalAll r.update.toList)).eraseAll
      (r.delete.keys.filterMap Key.normal?) := by
  refine SortedMap.ext ?_
  intro q
  rw [Batch.get?_writeTo, lastValue?_updates_of_batchOf h, SortedMap.get?_eraseAll,
    SortedMap.get?_insertAll]
  simp only [mem_deletions_of_batchOf h]
  cases SortedMap.lastValue? q (Key.normalAll r.update.toList) <;> rfl

omit h in
theorem get?_resultOf_eq_some_iff {values : Values} :
    (Gate.resultOf values).get? q = some v ↔ ∃ k, k.text = q ∧ values.get? k = some v := by
  unfold Gate.resultOf
  rw [SortedMap.get?_ofList]
  constructor
  · intro hvalue
    by_cases hq : ∃ k, Key.text k = q
    · rcases hq with ⟨k, rfl⟩
      rw [SortedMap.lastValue?_map Key.text_injective, SortedMap.lastValue?_toList] at hvalue
      exact ⟨k, rfl, hvalue⟩
    · rw [SortedMap.lastValue?_map_eq_none (fun k hk => hq ⟨k, hk⟩)] at hvalue
      cases hvalue
  · rintro ⟨k, rfl, hvalue⟩
    rw [SortedMap.lastValue?_map Key.text_injective, SortedMap.lastValue?_toList]
    exact hvalue

/-- What is answered are the keys that are to be read and that have values, with these. -/
theorem get?_result_of_batchOf (contents : SortedMap String String) :
    (Gate.resultOf (b.readFrom contents)).get? q = some v ↔
      q ∈ r.read.keys.filterMap Key.normal? ∧ contents.get? q = some v := by
  have hread : q ∈ r.read.keys.filterMap Key.normal? ↔ ∃ k ∈ b.read.keys, k.text = q := by
    rcases batchOf_eq_ok_iff.1 h with ⟨hnamed, rfl⟩
    rw [SortedMap.keys, ← Key.keys_normalAll,
      ← keys_authorizeAll _ ((forall_named_iff r).1 hnamed).1]
    simp [admitted, SortedMap.mem_keys_ofList]
  rw [get?_resultOf_eq_some_iff, hread]
  simp only [Batch.get?_readFrom]
  constructor
  · rintro ⟨k, rfl, hvalue⟩
    split at hvalue
    · rename_i hk
      exact ⟨⟨k, hk, rfl⟩, hvalue⟩
    · cases hvalue
  · rintro ⟨⟨k, hk, rfl⟩, hvalue⟩
    exact ⟨k, rfl, by rw [if_pos hk, hvalue]⟩

end User
end GuardedStore
