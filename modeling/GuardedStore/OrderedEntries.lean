/-!
# Entries in order of arrival

Texts under names, each name once, in the order in which the names first came.  Putting a name
again changes its text and leaves it at its place.  `get?_put` says what putting does to look-ups,
and `names_put` what it does to the order.
-/

namespace GuardedStore

/-- Texts under distinct names, in order of arrival. -/
structure OrderedEntries where
  -- the entries, first come first
  toList : List (String × String)
  nodup : (toList.map (·.1)).Nodup
  deriving Repr, DecidableEq

namespace OrderedEntries

def empty : OrderedEntries := ⟨[], .nil⟩

instance : EmptyCollection OrderedEntries := ⟨empty⟩

instance : Inhabited OrderedEntries := ⟨empty⟩

/-- The names, first come first. -/
def names (e : OrderedEntries) : List String := e.toList.map (·.1)

/-- Puts a text at the place of its name, or at the end. -/
def placed (name text : String) : List (String × String) → List (String × String)
  | [] => [(name, text)]
  | (n, t) :: rest => if n = name then (n, text) :: rest else (n, t) :: placed name text rest

theorem names_placed (name text : String) (l : List (String × String)) :
    (placed name text l).map (·.1) =
      if name ∈ l.map (·.1) then l.map (·.1) else l.map (·.1) ++ [name] := by
  induction l with
  | nil => simp [placed]
  | cons a rest ih =>
    obtain ⟨n, t⟩ := a
    rw [placed]
    by_cases h : n = name
    · simp [h]
    · have h' : name ≠ n := fun e => h e.symm
      by_cases hm : name ∈ rest.map (·.1) <;> simp_all

theorem nodup_placed (name text : String) {l : List (String × String)}
    (h : (l.map (·.1)).Nodup) : ((placed name text l).map (·.1)).Nodup := by
  rw [names_placed]
  split
  · exact h
  · next hm =>
    exact List.nodup_append.2 ⟨h, by simp, fun a ha b hb => by
      rw [List.mem_singleton.1 hb]
      exact fun e => hm (e ▸ ha)⟩

/-- The entries with the text of one name set. -/
def put (e : OrderedEntries) (name text : String) : OrderedEntries :=
  ⟨placed name text e.toList, nodup_placed name text e.nodup⟩

def ofList (l : List (String × String)) : OrderedEntries :=
  l.foldl (fun e p => e.put p.1 p.2) empty

def get? (e : OrderedEntries) (name : String) : Option String :=
  (e.toList.find? (fun p => p.1 == name)).map (·.2)

/-- A name that is there keeps its place, and a new one comes last. -/
theorem names_put (e : OrderedEntries) (name text : String) :
    (e.put name text).names = if name ∈ e.names then e.names else e.names ++ [name] :=
  names_placed name text e.toList

theorem find?_placed (name q text : String) (l : List (String × String)) :
    ((placed name text l).find? (fun p => p.1 == q)).map (·.2) =
      if q = name then some text else (l.find? (fun p => p.1 == q)).map (·.2) := by
  induction l with
  | nil =>
    by_cases h : name = q
    · simp [placed, h]
    · simp [placed, h, Ne.symm h]
  | cons a rest ih =>
    obtain ⟨n, t⟩ := a
    rw [placed]
    by_cases h : n = name
    · subst h
      by_cases h' : n = q
      · simp [h']
      · simp [h', Ne.symm h']
    · by_cases h' : n = q
      · subst h'
        simp [h]
      · simpa [h, h'] using ih

/-- After a put its name has the new text and all others what they had. -/
theorem get?_put (e : OrderedEntries) (name q text : String) :
    (e.put name text).get? q = if q = name then some text else e.get? q :=
  find?_placed name q text e.toList

end OrderedEntries

end GuardedStore
