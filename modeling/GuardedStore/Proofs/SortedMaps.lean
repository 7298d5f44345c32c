import GuardedStore.SortedMap
import Mathlib.Algebra.BigOperators.Group.List.Basic
import Mathlib.Algebra.GroupWithZero.Nat

/-!
# SortedMaps — images and totals of sorted maps

The image of a map under a function on its values (`mapValues`), and the total of a size over its
values (`total`), with what inserting and erasing a key does to both.  A map is its own list of
entries: `get?_eq_some_iff`, `lastValue?_toList`.
-/

namespace GuardedStore
namespace SortedMap

universe u v w

variable {α : Type u} {β : Type v} {γ : Type w} [Ord α]

/-- The map with a function applied to its values. -/
def mapValues (f : β → γ) (m : SortedMap α β) : SortedMap α γ :=
  ⟨m.toList.map (fun e => (e.1, f e.2)), by
    rw [List.pairwise_map]
    exact m.ascending⟩

@[simp] theorem size_mapValues (f : β → γ) (m : SortedMap α β) : (m.mapValues f).size = m.size := by
  simp [mapValues, size]

/-- The total of a size over all values. -/
def total (f : β → Nat) (m : SortedMap α β) : Nat := (m.values.map f).sum

theorem lookup_map (f : β → γ) (k : α) (l : List (α × β)) :
    lookup k (l.map (fun e => (e.1, f e.2))) = (lookup k l).map f := by
  induction l with
  | nil => rfl
  | cons e rest ih =>
      obtain ⟨k', v⟩ := e
      simp only [List.map_cons, lookup]
      cases compare k k' with
      | eq => rfl
      | lt => exact ih
      | gt => exact ih

@[simp] theorem get?_mapValues (f : β → γ) (m : SortedMap α β) (k : α) :
    (m.mapValues f).get? k = (m.get? k).map f :=
  lookup_map f k m.toList

section Updates

variable [Std.TransOrd α] [Std.LawfulEqOrd α] [DecidableEq α]

theorem contains_insert {m : SortedMap α β} {k q : α} {v : β} :
    (m.insert k v).contains q = (decide (q = k) || m.contains q) := by
  rw [contains, get?_insert, contains]
  by_cases hq : q = k <;> simp [hq]

@[simp] theorem mapValues_insert (f : β → γ) (m : SortedMap α β) (k : α) (v : β) :
    (m.insert k v).mapValues f = (m.mapValues f).insert k (f v) := by
  refine ext ?_
  intro q
  simp only [get?_mapValues, get?_insert]
  split <;> rfl

@[simp] theorem mapValues_erase (f : β → γ) (m : SortedMap α β) (k : α) :
    (m.erase k).mapValues f = (m.mapValues f).erase k := by
  refine ext ?_
  intro q
  simp only [get?_mapValues, get?_erase]
  split <;> rfl

end Updates

/-! ## Entries and look-ups -/

section Entries

variable [Std.LawfulEqOrd α] [DecidableEq α]

theorem lookup_eq_some_iff {k : α} {v : β} {l : List (α × β)}
    (h : l.Pairwise (fun a b => compare a.1 b.1 = .lt)) :
    lookup k l = some v ↔ (k, v) ∈ l := by
  induction l with
  | nil => simp [lookup]
  | cons e rest ih =>
      obtain ⟨k', v'⟩ := e
      obtain ⟨hlt, hrest⟩ := List.pairwise_cons.1 h
      rw [lookup_cons]
      by_cases hk : k = k'
      · subst hk
        -- all later keys are greater, so the key is not among them
        have hnot : (k, v) ∉ rest := by
          intro hmem
          have hself := hlt (k, v) hmem
          simp at hself
        simp [hnot, eq_comm]
      · simp [hk, ih hrest]

/-- A key has a value exactly if the entry is listed. -/
theorem get?_eq_some_iff {m : SortedMap α β} {k : α} {v : β} :
    m.get? k = some v ↔ (k, v) ∈ m.toList :=
  lookup_eq_some_iff m.ascending

theorem mem_keys_iff {m : SortedMap α β} {k : α} : k ∈ m.keys ↔ (m.get? k).isSome := by
  simp only [keys, List.mem_map, Option.isSome_iff_exists, get?_eq_some_iff]
  constructor
  · rintro ⟨⟨k', v⟩, hmem, rfl⟩
    exact ⟨v, hmem⟩
  · rintro ⟨v, hmem⟩
    exact ⟨(k, v), hmem, rfl⟩

/-- Among entries in order the last one with a key is the only one. -/
theorem lastValue?_toList (m : SortedMap α β) (q : α) : lastValue? q m.toList = m.get? q := by
  obtain ⟨l, h⟩ := m
  unfold get?
  simp only
  induction l with
  | nil => rfl
  | cons e rest ih =>
      obtain ⟨k, v⟩ := e
      obtain ⟨hlt, hrest⟩ := List.pairwise_cons.1 h
      rw [lastValue?, lookup_cons, ih hrest]
      by_cases hk : q = k
      · subst hk
        rw [lookup_eq_none_of_lt (fun e he => hlt e he), if_pos rfl]
      · simp only [hk, if_false]
        cases lookup q rest <;> rfl

end Entries

/-- The entries of a map make it again. -/
theorem insertAll_empty_toList [Std.TransOrd α] [Std.LawfulEqOrd α] [DecidableEq α]
    (m : SortedMap α β) :
    (empty : SortedMap α β).insertAll m.toList = m := by
  refine ext ?_
  intro q
  rw [get?_insertAll, lastValue?_toList]
  cases m.get? q <;> rfl

/-! ## Totals -/

/-- The size of what is under a key. -/
def sizeAt (f : β → Nat) (m : SortedMap α β) (k : α) : Nat := ((m.get? k).map f).getD 0

variable [Std.LawfulEqOrd α] [DecidableEq α]

theorem total_place [Std.TransOrd α] (f : β → Nat) (k : α) (v : β) {l : List (α × β)}
    (h : l.Pairwise (fun a b => compare a.1 b.1 = .lt)) :
    (((place k v l).map (·.2)).map f).sum + ((lookup k l).map f).getD 0 =
      ((l.map (·.2)).map f).sum + f v := by
  induction l with
  | nil => simp [place, lookup]
  | cons e rest ih =>
      obtain ⟨k', v'⟩ := e
      obtain ⟨hlt, hrest⟩ := List.pairwise_cons.1 h
      rw [place]
      -- the entry comes in front, takes the place of the first one, or goes further back
      cases hc : compare k k' with
      | lt =>
          have hnone : lookup k ((k', v') :: rest) = none := by
            refine lookup_eq_none_of_lt ?_
            intro e he
            rcases List.mem_cons.1 he with rfl | he
            · exact hc
            · exact Std.TransCmp.lt_trans hc (hlt e he)
          simp [hnone, Nat.add_comm]
      | eq =>
          have hk : k = k' := compare_eq_iff.1 hc
          subst hk
          simp only [List.map_cons, List.sum_cons, lookup_cons, if_true, Option.map_some,
            Option.getD_some]
          omega
      | gt =>
          have hne : k ≠ k' := by
            intro hk
            rw [compare_eq_iff.2 hk] at hc
            cases hc
          have htail := ih hrest
          simp only [List.map_cons, List.sum_cons, lookup_cons, if_neg hne]
          omega

/-- An insertion adds the size of the new value and takes off that of the old one. -/
theorem total_insert [Std.TransOrd α] (f : β → Nat) (m : SortedMap α β) (k : α) (v : β) :
    (m.insert k v).total f + m.sizeAt f k = m.total f + f v :=
  total_place f k v m.ascending

theorem total_filter_ne (f : β → Nat) (k : α) {l : List (α × β)}
    (h : l.Pairwise (fun a b => compare a.1 b.1 = .lt)) :
    (((l.filter (fun e => compare k e.1 != .eq)).map (·.2)).map f).sum +
        ((lookup k l).map f).getD 0 =
      ((l.map (·.2)).map f).sum := by
  induction l with
  | nil => simp [lookup]
  | cons e rest ih =>
      obtain ⟨k', v'⟩ := e
      obtain ⟨hlt, hrest⟩ := List.pairwise_cons.1 h
      have htail := ih hrest
      by_cases hk : k = k'
      · subst hk
        have hdrop : (compare k k != .eq) = false := by simp
        -- the key is not listed again
        have hnone : lookup k rest = none := lookup_eq_none_of_lt (fun e he => hlt e he)
        simp only [hnone, Option.map_none, Option.getD_none, Nat.add_zero] at htail
        simp only [List.filter_cons, hdrop, Bool.false_eq_true, if_false, List.map_cons,
          List.sum_cons, lookup_cons, if_true, Option.map_some, Option.getD_some, htail]
        omega
      · have hkeep : (compare k k' != .eq) = true := by simpa [compare_eq_iff] using hk
        simp only [List.filter_cons, hkeep, if_true, List.map_cons, List.sum_cons, lookup_cons,
          if_neg hk]
        omega

/-- An erasure takes off the size of the old value. -/
theorem total_erase (f : β → Nat) (m : SortedMap α β) (k : α) :
    (m.erase k).total f + m.sizeAt f k = m.total f :=
  total_filter_ne f k m.ascending

end SortedMap

namespace SortedSet

/-- The members of a set make it again. -/
theorem ofMembers_members {α : Type} [Ord α] [Std.TransOrd α] [Std.LawfulEqOrd α] [DecidableEq α]
    (s : SortedSet α) : ofMembers (members s) = s := by
  calc ofMembers (members s)
      = SortedMap.empty.insertAll s.toList := by
        rw [ofMembers, members, SortedMap.keys, List.foldl_map]
        rfl
    _ = s := SortedMap.insertAll_empty_toList s

end SortedSet

end GuardedStore
