import GuardedStore.Disk
import Mathlib.Tactic.SplitIfs

/-!
# DiskPaths — where a path leads, and what keeps it leading there

Opening a path makes the directories on its way and then finds or makes a file.  Afterwards the path
is `Linked` to that file: its directories are there and its name leads to the file.  A path stays
linked when contents change, and a new file that takes over the name is linked in its place
(`Linked.replace`).

The reason is the same each time: directories are never lost (`KeepsDirectories`), so that each walk
along them ends where it did.
-/

namespace GuardedStore
namespace Disk

variable {d d' d'' : Disk} {path : String} {here there names rest : List String} {id : Nat}

/-! ## Directories that stay -/

/-- Every directory of one disk is a directory of another. -/
def KeepsDirectories (d d' : Disk) : Prop :=
  ∀ names, d.entryAt? names = some .directory → d'.entryAt? names = some .directory

namespace KeepsDirectories

theorem refl (d : Disk) : KeepsDirectories d d := by
  intro names h
  exact h

theorem trans (h : KeepsDirectories d d') (h' : KeepsDirectories d' d'') :
    KeepsDirectories d d'' := by
  intro names hnames
  exact h' names (h names hnames)

theorem of_entries (h : d'.entries = d.entries) : KeepsDirectories d d' := by
  intro names hnames
  simpa [entryAt?, h] using hnames

/-- A walk along directories goes on ending where it did. -/
theorem walk (h : KeepsDirectories d d') (hwalk : d.walk here rest = some there) :
    d'.walk here rest = some there := by
  fun_induction Disk.walk d here rest with
  | case1 here => exact hwalk
  | case2 here part rest hidle ih =>
      rw [Disk.walk, if_pos hidle]
      exact ih hwalk
  | case3 here rest hidle ih =>
      rw [Disk.walk, if_neg hidle, if_pos rfl]
      exact ih hwalk
  | case4 here part rest hidle hup hdir ih =>
      rw [Disk.walk, if_neg hidle, if_neg hup, h _ hdir]
      exact ih hwalk
  | case5 => cases hwalk

/-- An entry that is put where no directory was loses none. -/
theorem insert (hnames : d.entryAt? names ≠ some .directory) (e : DiskEntry) (d' : Disk)
    (hd' : d'.entries = d.entries.insert (pathOf names) e) : KeepsDirectories d d' := by
  intro other hother
  unfold entryAt? at hnames hother ⊢
  split_ifs at hother ⊢ with hempty
  · rfl
  · -- a directory cannot be what was put, since no directory was there
    have hne : pathOf other ≠ pathOf names := by
      intro hsame
      rw [hsame] at hother
      split_ifs at hnames with hroot
      · exact hnames rfl
      · exact hnames hother
    rw [hd', SortedMap.get?_insert, if_neg hne]
    exact hother

end KeepsDirectories

theorem entryAt?_insert {e : DiskEntry} (hne : names ≠ [])
    (hd' : d'.entries = d.entries.insert (pathOf names) e) : d'.entryAt? names = some e := by
  rw [entryAt?, if_neg (by simpa using hne), hd', SortedMap.get?_insert, if_pos rfl]

/-! ## The way to a file -/

/-- The directories that a file with a path is in are there. -/
def HasParents (d : Disk) (path : String) : Prop :=
  parent path = "" ∨ d.isDirectory (parent path) = true

theorem HasParents.keep (h : d.HasParents path) (hkeep : KeepsDirectories d d') :
    d'.HasParents path := by
  rcases h with hempty | hdir
  · exact Or.inl hempty
  · refine Or.inr ?_
    unfold isDirectory at hdir ⊢
    cases hwalk : d.walk [] (parts (parent path)) with
    | none => simp [hwalk] at hdir
    | some there =>
        rw [hkeep.walk hwalk]
        simpa [hwalk] using hdir

theorem makeWay_of_walk (h : (d.walk here rest).isSome) : d.makeWay here rest = (d, true) := by
  fun_induction Disk.walk d here rest with
  | case1 here => rfl
  | case2 here part rest hidle ih =>
      rw [makeWay, if_pos hidle]
      exact ih h
  | case3 here rest hidle ih =>
      rw [makeWay, if_neg hidle, if_pos rfl]
      exact ih h
  | case4 here part rest hidle hup hdir ih =>
      simp only [makeWay, if_neg hidle, if_neg hup, hdir]
      exact ih h
  | case5 => cases h

theorem walk_of_makeWay (h : d.makeWay here rest = (d', true)) :
    KeepsDirectories d d' ∧ (d'.walk here rest).isSome := by
  fun_induction makeWay d here rest with
  | case1 d here =>
      cases h
      exact ⟨.refl _, by simp [walk]⟩
  | case2 d here part rest hidle ih =>
      rw [walk, if_pos hidle]
      exact ih h
  | case3 d here rest hidle ih =>
      rw [walk, if_neg hidle, if_pos rfl]
      exact ih h
  | case4 d here part rest hidle hup names hdir ih =>
      rcases ih h with ⟨hkeep, hwalk⟩
      refine ⟨hkeep, ?_⟩
      rw [walk, if_neg hidle, if_neg hup, hkeep _ hdir]
      exact hwalk
  | case5 => cases h
  | case6 d here part rest hidle hup names hnone hname ih =>
      rcases ih h with ⟨hkeep, hwalk⟩
      -- a missing directory is made, which loses none, and the walk goes on below it
      have hnew : ({ d with entries := d.entries.insert (pathOf names) .directory } : Disk).entryAt?
          names = some .directory :=
        entryAt?_insert (d := d) (by simp [names]) rfl
      have hold : KeepsDirectories d
          { d with entries := d.entries.insert (pathOf names) .directory } :=
        .insert (by simp [hnone]) .directory _ rfl
      refine ⟨hold.trans hkeep, ?_⟩
      rw [walk, if_neg hidle, if_neg hup, hkeep _ hnew]
      exact hwalk
  | case7 => cases h

theorem makeParents_of_hasParents (h : d.HasParents path) : d.makeParents path = (d, true) := by
  unfold makeParents makeDirectory
  rcases h with hempty | hdir
  · rw [if_pos hempty]
  · unfold isDirectory at hdir
    split_ifs with hroot hpath
    · rfl
    · exact makeWay_of_walk (by simpa [hpath] using hdir)
    · simp [hpath] at hdir

theorem hasParents_of_makeParents (h : d.makeParents path = (d', true)) : d'.HasParents path := by
  unfold makeParents makeDirectory at h
  split_ifs at h with hroot hpath
  · exact Or.inl hroot
  · have hwalk := (walk_of_makeWay h).2
    exact Or.inr (by simpa [isDirectory, hpath] using hwalk)
  · cases h

/-! ## The file at the end of the way -/

/-- The directories of a path are there, and it leads to a file. -/
structure Linked (d : Disk) (path : String) (id : Nat) : Prop where
  parents : d.HasParents path
  found : ∃ names, d.place? path = some names ∧ d.entryAt? names = some (.file id)

theorem place?_keep (h : d.place? path = some names) (hkeep : KeepsDirectories d d') :
    d'.place? path = some names := by
  unfold place? at h ⊢
  cases hlast : (parts path).getLast? with
  | none => simp [hlast] at h
  | some last =>
      simp only [hlast] at h ⊢
      split_ifs at h ⊢ with hpath
      cases hwalk : d.walk [] (parts path).dropLast with
      | none => simp [hwalk] at h
      | some there =>
          rw [hkeep.walk hwalk]
          simpa [hwalk] using h

theorem ne_nil_of_place? (h : d.place? path = some names) : names ≠ [] := by
  unfold place? at h
  cases hlast : (parts path).getLast? with
  | none => simp [hlast] at h
  | some last =>
      simp only [hlast] at h
      split_ifs at h
      rcases Option.map_eq_some_iff.1 h with ⟨there, _, rfl⟩
      simp

namespace Linked

/-- Changes of contents leave a path linked. -/
theorem of_entries (h : d.Linked path id) (hentries : d'.entries = d.entries) :
    d'.Linked path id := by
  have hkeep := KeepsDirectories.of_entries hentries
  rcases h.found with ⟨names, hplace, hentry⟩
  refine ⟨h.parents.keep hkeep, names, place?_keep hplace hkeep, ?_⟩
  simpa [entryAt?, hentries] using hentry

theorem makeParents (h : d.Linked path id) : d.makeParents path = (d, true) :=
  makeParents_of_hasParents h.parents

theorem open? (h : d.Linked path id) : d.open? path = some (d, id) := by
  rcases h.found with ⟨names, hplace, hentry⟩
  simp [Disk.open?, hplace, openNamed?, hentry]

/-- A file that is put under some names is found there. -/
theorem place (hparents : d.HasParents path) (hplace : d.place? path = some names)
    (hfree : d.entryAt? names ≠ some .directory) (c : Content) :
    (d.place names c).1.Linked path (d.place names c).2 := by
  have hkeep : KeepsDirectories d (d.place names c).1 := .insert hfree (.file d.next) _ rfl
  exact ⟨hparents.keep hkeep, names, place?_keep hplace hkeep,
    entryAt?_insert (d := d) (ne_nil_of_place? hplace) rfl⟩

/-- A new file takes over the name of a file. -/
theorem replace (h : d.Linked path id) (c : Content) :
    ∃ d' new, d.replace? path c = some (d', new) ∧ d'.Linked path new ∧ d'.content new = c := by
  rcases h.found with ⟨names, hplace, hentry⟩
  -- a file is found under the name, so that no directory is lost
  have hfree : d.entryAt? names ≠ some .directory := by simp [hentry]
  refine ⟨(d.place names c).1, (d.place names c).2, ?_, place h.parents hplace hfree c, ?_⟩
  · simp [Disk.replace?, hplace, hentry]
  · simp [content, Disk.place, SortedMap.get?_insert]

end Linked

/-- Whoever opens a path finds it linked. -/
theorem linked_of_open? (hparents : d.HasParents path) (h : d.open? path = some (d', id)) :
    d'.Linked path id := by
  unfold open? at h
  cases hplace : d.place? path with
  | none => simp [hplace] at h
  | some names =>
      simp only [hplace, openNamed?] at h
      cases hentry : d.entryAt? names with
      | none =>
          simp only [hentry, if_true, Option.some.injEq] at h
          -- nothing is found, and an empty file is made
          have hlinked := Linked.place hparents hplace (by simp [hentry]) .empty
          rwa [h] at hlinked
      | some e =>
          cases e with
          | directory => simp [hentry] at h
          | file found =>
              simp only [hentry, Option.some.injEq, Prod.mk.injEq] at h
              rcases h with ⟨rfl, rfl⟩
              exact ⟨hparents, names, hplace, hentry⟩

/-! ## Contents -/

@[simp] theorem content_setContent (d : Disk) (id : Nat) (c : Content) :
    (d.setContent id c).content id = c := by
  simp [content, setContent, SortedMap.get?_insert]

theorem content_append {a : ByteArray} (h : d.content id = .bytes a) (b : ByteArray) :
    (d.append id b).content id = .bytes (a ++ b) := by
  rw [append, content_setContent, h, Content.append]

theorem bytes_eq {a : ByteArray} (h : d.content id = .bytes a) : d.bytes id = a := by
  rw [bytes, h, Content.raw]

end Disk
end GuardedStore
