import GuardedStore.Proofs.AdmittedBatches
import GuardedStore.Proofs.CanonicalKeys

/-!
# NamedValues — maps of keys as maps of texts

Both kinds of stores keep values under texts, but whoever uses them deals in keys.  A map of keys is
named by the texts of its keys (`SortedMap.named`); then whatever is done to it can be done under
these names.  So a batch that updates, deletes and reads by keys comes to the same as one that does
so by texts (`Batch.writeTo_named`, `Batch.readFrom_named`), and what is stored under the names is
read back as it was (`readStored_named`).
-/

namespace GuardedStore
namespace SortedMap

/-! ## Names -/

variable {β : Type}

/-- The map with the text of each key in its place. -/
def named (m : SortedMap Key β) : SortedMap String β :=
  ⟨m.toList.map (fun e => (e.1.text, e.2)), by
    rw [List.pairwise_map]
    exact m.ascending⟩

theorem toList_named (m : SortedMap Key β) :
    m.named.toList = m.toList.map (fun e => (e.1.text, e.2)) := rfl

@[simp] theorem size_named (m : SortedMap Key β) : m.named.size = m.size := by
  simp [size, toList_named]

@[simp] theorem values_named (m : SortedMap Key β) : m.named.values = m.values := by
  simp [values, toList_named, Function.comp_def]

@[simp] theorem total_named (f : β → Nat) (m : SortedMap Key β) : m.named.total f = m.total f := by
  simp only [total, values_named]

@[simp] theorem get?_named (m : SortedMap Key β) (k : Key) :
    m.named.get? k.text = m.get? k := by
  rw [← lastValue?_toList, ← lastValue?_toList, toList_named, lastValue?_map Key.text_injective]

theorem named_injective {m n : SortedMap Key β} (h : m.named = n.named) : m = n := by
  refine ext ?_
  intro k
  rw [← get?_named, ← get?_named, h]

theorem get?_named_of_not (m : SortedMap Key β) {q : String} (hq : ∀ k : Key, k.text ≠ q) :
    m.named.get? q = none := by
  rw [← lastValue?_toList, toList_named, lastValue?_map_eq_none hq]

/-- Each name is the text of a key and spells that key, -/
theorem create_of_mem_named {m : SortedMap Key β} {name : String} (h : name ∈ m.named.keys) :
    ∃ key, Key.create name = .ok key ∧ key.text = name := by
  rw [keys, toList_named, List.map_map] at h
  rcases List.mem_map.1 h with ⟨e, -, rfl⟩
  exact ⟨e.1, Key.create_text e.1, rfl⟩

/-- so no two names spell the same key. -/
theorem eq_of_mem_named {m : SortedMap Key β} {name other : String} (hname : name ∈ m.named.keys)
    (hother : other ∈ m.named.keys) (hsame : Key.create name = Key.create other) :
    name = other := by
  rcases create_of_mem_named hname with ⟨key, hkey, rfl⟩
  rcases create_of_mem_named hother with ⟨key', hkey', rfl⟩
  rw [hkey, hkey'] at hsame
  rw [Except.ok.inj hsame]

/-- Only the texts of keys matter to a map that is named by them. -/
theorem eq_named {m : SortedMap Key β} {n : SortedMap String β}
    (htext : ∀ k : Key, n.get? k.text = m.get? k)
    (hnot : ∀ q, (∀ k : Key, k.text ≠ q) → n.get? q = none) : n = m.named := by
  refine ext ?_
  intro q
  by_cases hq : ∃ k : Key, k.text = q
  · rcases hq with ⟨k, rfl⟩
    rw [htext, get?_named]
  · have hnone : ∀ k : Key, k.text ≠ q := fun k hk => hq ⟨k, hk⟩
    rw [hnot q hnone, get?_named_of_not m hnone]

theorem insert_named (m : SortedMap Key β) (k : Key) (v : β) :
    m.named.insert k.text v = (m.insert k v).named := by
  refine eq_named ?_ ?_
  · intro k'
    simp only [get?_insert, get?_named, Key.text_injective.eq_iff]
  · intro q hq
    rw [get?_insert, if_neg (hq k).symm, get?_named_of_not m hq]

theorem erase_named (m : SortedMap Key β) (k : Key) :
    m.named.erase k.text = (m.erase k).named := by
  refine eq_named ?_ ?_
  · intro k'
    simp only [get?_erase, get?_named, Key.text_injective.eq_iff]
  · intro q hq
    rw [get?_erase, if_neg (hq k).symm, get?_named_of_not m hq]

theorem insertAll_named (m : SortedMap Key β) (l : List (Key × β)) :
    m.named.insertAll (l.map (fun e => (e.1.text, e.2))) = (m.insertAll l).named := by
  induction l generalizing m with
  | nil => rfl
  | cons e l ih =>
      have hrest := ih (m.insert e.1 e.2)
      rwa [← insert_named] at hrest

theorem eraseAll_named (m : SortedMap Key β) (keys : List Key) :
    m.named.eraseAll (keys.map Key.text) = (m.eraseAll keys).named := by
  induction keys generalizing m with
  | nil => rfl
  | cons k keys ih =>
      have hrest := ih (m.erase k)
      rwa [← erase_named] at hrest

end SortedMap

/-! ## Batches -/

namespace Batch

variable {values : Values} {k : Key}

/-- What the batch makes of some values: it updates, and then deletes. -/
def applyTo (b : Batch) (values : Values) : Values :=
  (values.insertAll b.update.toList).eraseAll b.delete.keys

/-- Those of some values that the batch reads. -/
def select (b : Batch) (values : Values) : Values :=
  ⟨values.toList.filter (fun e => e.1 ∈ b.read.keys), values.ascending.filter _⟩

/-- A key that is deleted ends without a value, even if it is updated as well; any other key has its
new value, or else the one that it had. -/
theorem get?_applyTo (b : Batch) (values : Values) (k : Key) :
    (b.applyTo values).get? k =
      if k ∈ b.delete.keys then none else (b.update.get? k).or (values.get? k) := by
  rw [applyTo, SortedMap.get?_eraseAll, SortedMap.get?_insertAll, SortedMap.lastValue?_toList]
  cases b.update.get? k <;> rfl

theorem get?_select (b : Batch) (values : Values) (k : Key) :
    (b.select values).get? k = if k ∈ b.read.keys then values.get? k else none := by
  refine Option.ext ?_
  intro v
  rw [SortedMap.get?_eq_some_iff, select, List.mem_filter, ← SortedMap.get?_eq_some_iff]
  split <;> simp_all

theorem writeTo_named (b : Batch) (values : Values) :
    b.writeTo values.named = (b.applyTo values).named := by
  calc
    b.writeTo values.named = (values.insertAll b.update.toList).named.eraseAll b.deletions := by
      rw [writeTo, updates, SortedMap.insertAll_named]
    _ = (b.applyTo values).named := SortedMap.eraseAll_named _ _

theorem readFrom_named (b : Batch) (values : Values) :
    b.readFrom values.named = b.select values := by
  refine SortedMap.ext ?_
  intro k
  rw [get?_readFrom, get?_select, SortedMap.get?_named]

end Batch

/-! ## Stored values -/

theorem readStored_map_text (l : List (Key × String)) (values : Values) :
    readStored (l.map (fun e => (e.1.text, e.2))) values = .ok (values.insertAll l) := by
  induction l generalizing values with
  | nil => rfl
  | cons e l ih =>
      simp only [List.map_cons, readStored, Key.create_text]
      exact ih (values.insert e.1 e.2)

/-- What is stored under the texts of keys is read back. -/
theorem readStored_named (values : Values) :
    readStored values.named.toList .empty = .ok values := by
  calc
    readStored values.named.toList .empty = .ok (SortedMap.empty.insertAll values.toList) :=
      readStored_map_text values.toList .empty
    _ = .ok values := by rw [SortedMap.insertAll_empty_toList]

end GuardedStore
