/-!
# Sorted maps

A finite map is kept as the list of its entries in strictly ascending key order.  The list is
then a normal form: two maps that answer every look-up alike are equal (`SortedMap.ext`), and
listing a map lists its keys in order.  `get?_insert`, `get?_erase` and `get?_ofList` say what
each operation does to look-ups; `toList` is never unfolded elsewhere.
-/

namespace GuardedStore

universe u v

/-- A finite map, as its entries in strictly ascending key order. -/
structure SortedMap (α : Type u) (β : Type v) [Ord α] where
  -- the entries, in key order
  toList : List (α × β)
  -- each key is smaller than all later ones
  ascending : toList.Pairwise (fun a b => compare a.1 b.1 = .lt)
  deriving Repr

namespace SortedMap

variable {α : Type u} {β : Type v} [Ord α]

instance [DecidableEq α] [DecidableEq β] : DecidableEq (SortedMap α β) := fun m n =>
  match decEq m.toList n.toList with
  | isTrue h => isTrue (by cases m; cases n; cases h; rfl)
  | isFalse h => isFalse (fun e => h (e ▸ rfl))

def empty : SortedMap α β := ⟨[], .nil⟩

instance : EmptyCollection (SortedMap α β) := ⟨empty⟩

instance : Inhabited (SortedMap α β) := ⟨empty⟩

def size (m : SortedMap α β) : Nat := m.toList.length

def isEmpty (m : SortedMap α β) : Bool := m.toList.isEmpty

/-- The bound keys, in order. -/
def keys (m : SortedMap α β) : List α := m.toList.map (·.1)

/-- The bound values, in the order of their keys. -/
def values (m : SortedMap α β) : List β := m.toList.map (·.2)

/-- The value of the first entry with key `k`. -/
def lookup (k : α) : List (α × β) → Option β
  | [] => none
  | (k', v) :: rest => match compare k k' with
    | .eq => some v
    | _ => lookup k rest

def get? (m : SortedMap α β) (k : α) : Option β := lookup k m.toList

def contains (m : SortedMap α β) (k : α) : Bool := (m.get? k).isSome

/-- Puts an entry at its place in a list of entries in key order, instead of one with its key. -/
def place (k : α) (v : β) : List (α × β) → List (α × β)
  | [] => [(k, v)]
  | (k', v') :: rest => match compare k k' with
    | .lt => (k, v) :: (k', v') :: rest
    | .eq => (k, v) :: rest
    | .gt => (k', v') :: place k v rest

theorem mem_place {k : α} {v : β} {e : α × β} {l : List (α × β)} :
    e ∈ place k v l → e = (k, v) ∨ e ∈ l := by
  induction l with
  | nil => simp [place]
  | cons a rest ih =>
    obtain ⟨k', v'⟩ := a
    rw [place]
    cases compare k k' <;> grind

theorem ascending_place [Std.TransOrd α] (k : α) (v : β) {l : List (α × β)}
    (h : l.Pairwise (fun a b => compare a.1 b.1 = .lt)) :
    (place k v l).Pairwise (fun a b => compare a.1 b.1 = .lt) := by
  induction l with
  | nil => simp [place]
  | cons a rest ih =>
    obtain ⟨k', v'⟩ := a
    rw [place]
    have hrest := (List.pairwise_cons.1 h).1
    have htail := (List.pairwise_cons.1 h).2
    cases hc : compare k k' with
    | lt =>
      refine List.pairwise_cons.2 ⟨fun e he => ?_, h⟩
      rcases List.mem_cons.1 he with rfl | he
      · exact hc
      · exact Std.TransCmp.lt_trans hc (hrest e he)
    | eq =>
      refine List.pairwise_cons.2 ⟨fun e he => ?_, htail⟩
      exact Std.TransCmp.lt_of_eq_of_lt hc (hrest e he)
    | gt =>
      refine List.pairwise_cons.2 ⟨fun e he => ?_, ih htail⟩
      rcases mem_place he with rfl | he
      · exact Std.OrientedCmp.lt_of_gt hc
      · exact hrest e he

/-- The map with `k` bound to `v`, and all else as in `m`. -/
def insert [Std.TransOrd α] (m : SortedMap α β) (k : α) (v : β) : SortedMap α β :=
  ⟨place k v m.toList, ascending_place k v m.ascending⟩

/-- The map without a binding for `k`, and all else as in `m`. -/
def erase (m : SortedMap α β) (k : α) : SortedMap α β :=
  ⟨m.toList.filter (fun e => compare k e.1 != .eq), m.ascending.filter _⟩

/-- Inserts the entries of a list from left to right, so that the last entry of a key wins. -/
def insertAll [Std.TransOrd α] (m : SortedMap α β) (l : List (α × β)) : SortedMap α β :=
  l.foldl (fun m e => m.insert e.1 e.2) m

def eraseAll (m : SortedMap α β) (ks : List α) : SortedMap α β :=
  ks.foldl erase m

/-- The map of a list of entries; the last entry of a key wins. -/
def ofList [Std.TransOrd α] (l : List (α × β)) : SortedMap α β :=
  insertAll empty l

def singleton (k : α) (v : β) : SortedMap α β := ⟨[(k, v)], by simp⟩

/-! ## What the operations do to look-ups -/

@[simp] theorem get?_empty (k : α) : (empty : SortedMap α β).get? k = none := rfl

theorem lookup_eq_none_of_lt {k : α} {l : List (α × β)}
    (h : ∀ e ∈ l, compare k e.1 = .lt) : lookup k l = none := by
  induction l with
  | nil => rfl
  | cons a rest ih =>
    rw [lookup, h a (by simp)]
    exact ih (fun e he => h e (by simp [he]))

theorem compare_eq_iff [Std.LawfulEqOrd α] {a b : α} : compare a b = .eq ↔ a = b :=
  Std.LawfulEqCmp.compare_eq_iff_eq

theorem lookup_cons [Std.LawfulEqOrd α] [DecidableEq α] (k k' : α) (v : β) (l : List (α × β)) :
    lookup k ((k', v) :: l) = if k = k' then some v else lookup k l := by
  rw [lookup]
  by_cases h : k = k'
  · simp [h]
  · have : compare k k' ≠ .eq := fun hc => h (compare_eq_iff.1 hc)
    cases hc : compare k k' <;> simp_all

theorem lookup_place [Std.TransOrd α] [Std.LawfulEqOrd α] [DecidableEq α] (k q : α) (v : β)
    (l : List (α × β)) :
    lookup q (place k v l) = if q = k then some v else lookup q l := by
  induction l with
  | nil => simp [place, lookup_cons]
  | cons a rest ih =>
    obtain ⟨k', v'⟩ := a
    rw [place]
    cases hc : compare k k' with
    | lt => simp [lookup_cons]
    | eq =>
      have : k = k' := compare_eq_iff.1 hc
      subst this
      simp only [lookup_cons]
      by_cases h : q = k <;> simp [h]
    | gt =>
      have hne : k ≠ k' := fun h => by
        rw [compare_eq_iff.2 h] at hc; cases hc
      simp only [lookup_cons, ih]
      by_cases h : q = k' <;> by_cases h' : q = k <;> simp_all

theorem lookup_filter_ne [Std.LawfulEqOrd α] [DecidableEq α] (k q : α) (l : List (α × β)) :
    lookup q (l.filter (fun e => compare k e.1 != .eq)) = if q = k then none else lookup q l := by
  induction l with
  | nil => simp [lookup]
  | cons a rest ih =>
    obtain ⟨k', v'⟩ := a
    by_cases hk : k = k'
    · subst hk
      have : (compare k k != .eq) = false := by simp
      simp only [List.filter_cons, this, lookup_cons]
      by_cases h : q = k <;> simp_all
    · have : (compare k k' != .eq) = true := by simpa [compare_eq_iff] using hk
      simp only [List.filter_cons, this, if_true, lookup_cons, ih]
      by_cases h : q = k' <;> by_cases h' : q = k <;> simp_all

/-- After an insertion the inserted key has the new value and all others what they had. -/
theorem get?_insert [Std.TransOrd α] [Std.LawfulEqOrd α] [DecidableEq α] (m : SortedMap α β)
    (k q : α) (v : β) : (m.insert k v).get? q = if q = k then some v else m.get? q :=
  lookup_place k q v m.toList

/-- After an erasure the erased key has no value and all others what they had. -/
theorem get?_erase [Std.LawfulEqOrd α] [DecidableEq α] (m : SortedMap α β) (k q : α) :
    (m.erase k).get? q = if q = k then none else m.get? q :=
  lookup_filter_ne k q m.toList

/-- The value of the last entry of a list with a key. -/
def lastValue? [DecidableEq α] (q : α) : List (α × β) → Option β
  | [] => none
  | (k, v) :: rest => match lastValue? q rest with
    | some w => some w
    | none => if q = k then some v else none

/-- After entries are inserted a key has the value of its last entry, or else what it had. -/
theorem get?_insertAll [Std.TransOrd α] [Std.LawfulEqOrd α] [DecidableEq α] (m : SortedMap α β)
    (l : List (α × β)) (q : α) :
    (m.insertAll l).get? q = match lastValue? q l with
      | some v => some v
      | none => m.get? q := by
  induction l generalizing m with
  | nil => rfl
  | cons a rest ih =>
    obtain ⟨k, v⟩ := a
    have step : m.insertAll ((k, v) :: rest) = (m.insert k v).insertAll rest := rfl
    rw [step, ih, lastValue?, get?_insert]
    cases lastValue? q rest with
    | some w => rfl
    | none => by_cases h : q = k <;> simp [h]

/-- A map that is made of a list has for each key the value of its last entry. -/
theorem get?_ofList [Std.TransOrd α] [Std.LawfulEqOrd α] [DecidableEq α] (l : List (α × β))
    (q : α) : (ofList l).get? q = lastValue? q l := by
  rw [ofList, get?_insertAll]
  cases lastValue? q l <;> rfl

/-- After keys are erased they have no values and all others what they had. -/
theorem get?_eraseAll [Std.LawfulEqOrd α] [DecidableEq α] (m : SortedMap α β) (ks : List α)
    (q : α) : (m.eraseAll ks).get? q = if q ∈ ks then none else m.get? q := by
  induction ks generalizing m with
  | nil => simp [eraseAll]
  | cons k rest ih =>
    have step : m.eraseAll (k :: rest) = (m.erase k).eraseAll rest := rfl
    rw [step, ih, get?_erase]
    by_cases h : q ∈ rest <;> by_cases h' : q = k <;> simp [h, h']

theorem eq_of_lookup_eq [Std.TransOrd α] [Std.LawfulEqOrd α] {l r : List (α × β)}
    (hl : l.Pairwise (fun a b => compare a.1 b.1 = .lt))
    (hr : r.Pairwise (fun a b => compare a.1 b.1 = .lt))
    (h : ∀ k, lookup k l = lookup k r) : l = r := by
  classical
  induction l generalizing r with
  | nil =>
    cases r with
    | nil => rfl
    | cons b r => have := h b.1; simp [lookup] at this
  | cons a l ih =>
    cases r with
    | nil => have := h a.1; simp [lookup] at this
    | cons b r =>
      obtain ⟨hla, hl⟩ := List.pairwise_cons.1 hl
      obtain ⟨hrb, hr⟩ := List.pairwise_cons.1 hr
      have hab : a.1 = b.1 := by
        cases hc : compare a.1 b.1 with
        | eq => exact compare_eq_iff.1 hc
        | lt =>
          have h1 : lookup a.1 (b :: r) = none := lookup_eq_none_of_lt (fun e he => by
            rcases List.mem_cons.1 he with rfl | he
            · exact hc
            · exact Std.TransCmp.lt_trans hc (hrb e he))
          have h2 := h a.1
          rw [h1, lookup_cons] at h2
          simp at h2
        | gt =>
          have hc := Std.OrientedCmp.lt_of_gt hc
          have h1 : lookup b.1 (a :: l) = none := lookup_eq_none_of_lt (fun e he => by
            rcases List.mem_cons.1 he with rfl | he
            · exact hc
            · exact Std.TransCmp.lt_trans hc (hla e he))
          have h2 := h b.1
          rw [h1, lookup_cons] at h2
          simp at h2
      have hval : a.2 = b.2 := by
        have := h a.1
        rw [lookup_cons, hab, lookup_cons] at this
        simpa using this
      have hlr : l = r := ih hl hr (fun k => by
        by_cases hk : k = a.1
        · subst hk
          rw [lookup_eq_none_of_lt hla, hab, lookup_eq_none_of_lt hrb]
        · have := h k
          rw [lookup_cons, lookup_cons, if_neg hk, if_neg (hab ▸ hk)] at this
          exact this)
      rw [hlr, Prod.ext hab hval]

/-- Maps that answer every look-up alike are equal. -/
theorem ext [Std.TransOrd α] [Std.LawfulEqOrd α] {m n : SortedMap α β}
    (h : ∀ k, m.get? k = n.get? k) : m = n := by
  obtain ⟨l, hl⟩ := m
  obtain ⟨r, hr⟩ := n
  obtain rfl : l = r := eq_of_lookup_eq hl hr h
  rfl

end SortedMap

/-! ## Sorted sets -/

/-- A finite set, as a map that binds its members to nothing of interest. -/
abbrev SortedSet (α : Type u) [Ord α] := SortedMap α Unit

namespace SortedSet

variable {α : Type u} [Ord α]

def add [Std.TransOrd α] (s : SortedSet α) (a : α) : SortedSet α := s.insert a ()

def ofMembers [Std.TransOrd α] (l : List α) : SortedSet α := l.foldl add SortedMap.empty

/-- The members, in order. -/
def members (s : SortedSet α) : List α := s.keys

end SortedSet

end GuardedStore
