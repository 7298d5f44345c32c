import GuardedStore.Proofs.DiskPaths

/-!
# DiskFiles — files that are left alone

On a sound disk a new file never takes over the contents of another one (`IsSound`), and every
operation leaves the disk sound.  `Spares names d d'` says that whatever was done between two disks,
it was not done to the file under some names: removing a file under another path spares it, and so
does making one.  What is held under a name (`contentUnder`) also stays the same when directories or
empty files are made where nothing was (`contentUnder_insert`).

Most work puts files under a few names, removes them and writes some files.  That it stays `Within`
them is all that has to be known about it (`Within.isSound`, `Within.spares`).
-/

namespace GuardedStore
namespace Disk

variable {d d' d'' : Disk} {names near other : List String} {here rest : List String}
  {path : String} {id : Nat} {c : Content} {e : DiskEntry} {wanted : Bool}
  {touched touched' : List (List String)} {written written' : List Nat}

/-! ## Numbers of files -/

/-- Every file that is found has a number from before, so that the next file is a new one. -/
def IsSound (d : Disk) : Prop := ∀ path id, d.entries.get? path = some (.file id) → id < d.next

theorem isSound_empty : IsSound .empty := by
  intro path id h
  cases h

theorem entryAt?_eq_some_file :
    d.entryAt? names = some (.file id) ↔
      names ≠ [] ∧ d.entries.get? (pathOf names) = some (.file id) := by
  unfold entryAt?
  cases names with
  | nil => simp
  | cons name names => simp

namespace IsSound

theorem lt_next (h : d.IsSound) (hentry : d.entryAt? names = some (.file id)) : id < d.next :=
  h _ id (entryAt?_eq_some_file.1 hentry).2

theorem of_entries (h : d.IsSound) (hentries : d'.entries = d.entries) (hnext : d'.next = d.next) :
    d'.IsSound := by
  intro path id hentry
  rw [hentries] at hentry
  rw [hnext]
  exact h path id hentry

theorem setContent (h : d.IsSound) (id : Nat) (c : Content) : (d.setContent id c).IsSound :=
  h.of_entries rfl rfl

theorem append (h : d.IsSound) (id : Nat) (b : ByteArray) : (d.append id b).IsSound :=
  h.setContent id _

theorem place (h : d.IsSound) (names : List String) (c : Content) :
    (d.place names c).1.IsSound := by
  intro path id hentry
  have hlt : id < d.next + 1 := by
    simp only [Disk.place, SortedMap.get?_insert] at hentry
    split at hentry
    · cases hentry
      exact Nat.lt_succ_self _
    · exact Nat.lt_succ_of_lt (h path id hentry)
  exact hlt

theorem forget (h : d.IsSound) (names : List String) : (d.forget names).IsSound := by
  unfold Disk.forget
  split
  · intro path id hentry
    simp only [SortedMap.get?_erase] at hentry
    split at hentry
    · cases hentry
    · exact h path id hentry
  · exact h

theorem insertDirectory (h : d.IsSound) (path : String) :
    IsSound { d with entries := d.entries.insert path .directory } := by
  intro path' id hentry
  simp only [SortedMap.get?_insert] at hentry
  split at hentry
  · cases hentry
  · exact h path' id hentry

theorem makeWay (h : d.IsSound) (here rest : List String) : (d.makeWay here rest).1.IsSound := by
  fun_induction Disk.makeWay d here rest with
  | case1 d here => exact h
  | case2 d here part rest hidle ih => exact ih h
  | case3 d here rest hidle ih => exact ih h
  | case4 d here part rest hidle hup names hdir ih => exact ih h
  | case5 d here part rest hidle hup names id hfile => exact h
  | case6 d here part rest hidle hup names hnone hname ih => exact ih (h.insertDirectory _)
  | case7 d here part rest hidle hup names hnone hname => exact h

theorem makeParents (h : d.IsSound) (path : String) : (d.makeParents path).1.IsSound := by
  unfold Disk.makeParents makeDirectory
  split_ifs
  · exact h
  · exact h.makeWay _ _
  · exact h

theorem openNamed? (h : d.IsSound) (hopen : d.openNamed? names wanted = some (d', id)) :
    d'.IsSound := by
  unfold Disk.openNamed? at hopen
  split at hopen
  · cases hopen
  · cases hopen
    exact h
  · split_ifs at hopen
    cases hopen
    exact h.place names .empty

theorem open? (h : d.IsSound) (hopen : d.open? path = some (d', id)) : d'.IsSound := by
  unfold Disk.open? at hopen
  split at hopen
  · cases hopen
  · exact h.openNamed? hopen

theorem replace? (h : d.IsSound) (hreplace : d.replace? path c = some (d', id)) :
    d'.IsSound := by
  unfold Disk.replace? at hreplace
  split at hreplace
  · cases hreplace
  · split at hreplace
    · cases hreplace
    · cases hreplace
      exact h.place _ c

end IsSound

/-! ## Names that are forgotten -/

@[simp] theorem content_forget (d : Disk) (other : List String) (id : Nat) :
    (d.forget other).content id = d.content id := by
  unfold forget
  split <;> rfl

@[simp] theorem home_forget (d : Disk) (other : List String) : (d.forget other).home = d.home := by
  unfold forget
  split <;> rfl

/-! ## Files that are spared -/

/-- The disk is sound, and what is under some names is what it was on another disk: the same file
with the same contents, if it is a file. -/
structure Spares (names : List String) (d d' : Disk) : Prop where
  sound : d'.IsSound
  entry : d'.entryAt? names = d.entryAt? names
  content : ∀ id, d.entryAt? names = some (.file id) → d'.content id = d.content id

namespace Spares

theorem refl (h : d.IsSound) (names : List String) : Spares names d d :=
  ⟨h, rfl, fun _ _ => rfl⟩

theorem trans (h : Spares names d d') (h' : Spares names d' d'') : Spares names d d'' := by
  refine ⟨h'.sound, h'.entry.trans h.entry, ?_⟩
  intro id hentry
  rw [h'.content id (h.entry.trans hentry), h.content id hentry]

/-- Entries with other paths may change. -/
theorem of_entries (hsound : d'.IsSound)
    (hentries : d'.entries.get? (pathOf names) = d.entries.get? (pathOf names))
    (hcontent : ∀ id, d.entryAt? names = some (.file id) → d'.content id = d.content id) :
    Spares names d d' := by
  refine ⟨hsound, ?_, hcontent⟩
  unfold entryAt?
  rw [hentries]

theorem forget (h : d.IsSound) (hne : pathOf names ≠ pathOf other) :
    Spares names d (d.forget other) := by
  refine of_entries (h.forget other) ?_ ?_
  · unfold Disk.forget
    split
    · rw [SortedMap.get?_erase, if_neg hne]
    · rfl
  · intro id _
    unfold Disk.forget
    split <;> rfl

theorem place (h : d.IsSound) (hne : pathOf names ≠ pathOf other) (c : Content) :
    Spares names d (d.place other c).1 := by
  refine of_entries (h.place other c) ?_ ?_
  · simp only [Disk.place, SortedMap.get?_insert, if_neg hne]
  · intro id hentry
    -- the new file has a number that no other file has
    have hold : id ≠ d.next := Nat.ne_of_lt (h.lt_next hentry)
    simp only [Disk.place, Disk.content, SortedMap.get?_insert, if_neg hold]

end Spares

/-! ## What is held under a name -/

/-- What is held under some names: nothing, unless a file is there. -/
def contentUnder (d : Disk) (names : List String) : Content :=
  match d.entryAt? names with
  | some (.file id) => d.content id
  | _ => .empty

theorem contentUnder_of_file (hentry : d.entryAt? names = some (.file id)) :
    d.contentUnder names = d.content id := by
  rw [contentUnder, hentry]

theorem Spares.contentUnder (h : Spares names d d') :
    d'.contentUnder names = d.contentUnder names := by
  unfold Disk.contentUnder
  rw [h.entry]
  split
  · rename_i id hentry
    exact h.content id hentry
  · rfl

/-- An entry that holds nothing may be put where nothing was. -/
theorem contentUnder_insert {d' : Disk} (hnone : d.entryAt? names = none)
    (hentries : d'.entries = d.entries.insert (pathOf names) e)
    (hcontent : ∀ other id, d.entryAt? other = some (.file id) → d'.content id = d.content id)
    (hempty : ∀ id, e = .file id → d'.content id = .empty) (other : List String) :
    d'.contentUnder other = d.contentUnder other := by
  by_cases hroot : other = []
  · rw [hroot]
    rfl
  · have hroot' : ¬ other.isEmpty = true := by simpa using hroot
    by_cases hsame : pathOf other = pathOf names
    · have hne : ¬ names.isEmpty = true := by
        intro htop
        simp [entryAt?, htop] at hnone
      have hafter : d'.entryAt? other = some e := by
        rw [entryAt?, if_neg hroot', hentries, hsame, SortedMap.get?_insert, if_pos rfl]
      have hbefore : d.entryAt? other = none := by
        rw [entryAt?, if_neg hne] at hnone
        rw [entryAt?, if_neg hroot', hsame, hnone]
      unfold contentUnder
      rw [hafter, hbefore]
      cases e with
      | directory => rfl
      | file id => exact hempty id rfl
    · have hentry : d'.entryAt? other = d.entryAt? other := by
        rw [entryAt?, entryAt?, if_neg hroot', if_neg hroot', hentries, SortedMap.get?_insert,
          if_neg hsame]
      unfold contentUnder
      rw [hentry]
      split
      · rename_i id hfile
        exact hcontent other id hfile
      · rfl

/-- Directories are made where nothing was. -/
theorem contentUnder_makeWay (d : Disk) (here rest : List String) (other : List String) :
    (d.makeWay here rest).1.contentUnder other = d.contentUnder other := by
  fun_induction Disk.makeWay d here rest with
  | case1 d here => rfl
  | case2 d here part rest hidle ih => exact ih
  | case3 d here rest hidle ih => exact ih
  | case4 d here part rest hidle hup names hdir ih => exact ih
  | case5 d here part rest hidle hup names id hfile => rfl
  | case6 d here part rest hidle hup names hnone hname ih =>
      refine ih.trans (contentUnder_insert hnone rfl ?_ ?_ other)
      · exact fun _ _ _ => rfl
      · intro id hfile
        cases hfile
  | case7 d here part rest hidle hup names hnone hname => rfl

theorem contentUnder_makeParents (d : Disk) (path : String) (other : List String) :
    (d.makeParents path).1.contentUnder other = d.contentUnder other := by
  unfold makeParents makeDirectory
  split_ifs
  · rfl
  · exact contentUnder_makeWay d _ _ other
  · rfl

theorem entryAt?_of_openNamed? (hopen : d.openNamed? names wanted = some (d', id)) :
    d'.entryAt? names = some (.file id) := by
  unfold openNamed? at hopen
  split at hopen
  · cases hopen
  · rename_i hentry
    cases hopen
    exact hentry
  · rename_i hnone
    split_ifs at hopen
    cases hopen
    have hne : names ≠ [] := by
      rintro rfl
      cases hnone
    exact entryAt?_insert (d := d) hne rfl

/-- A file that is made is empty. -/
theorem contentUnder_openNamed? (h : d.IsSound) (hopen : d.openNamed? names wanted = some (d', id))
    (other : List String) : d'.contentUnder other = d.contentUnder other := by
  unfold openNamed? at hopen
  split at hopen
  · cases hopen
  · cases hopen
    rfl
  · rename_i hnone
    split_ifs at hopen
    cases hopen
    refine contentUnder_insert hnone rfl ?_ ?_ other
    · intro near id hfile
      simp [content, SortedMap.get?_insert, Nat.ne_of_lt (h.lt_next hfile)]
    · rintro id ⟨⟩
      simp [content, SortedMap.get?_insert]

theorem content_setContent_of_ne {id' : Nat} (hne : id' ≠ id) (d : Disk) (c : Content) :
    (d.setContent id c).content id' = d.content id' := by
  rw [content, setContent, SortedMap.get?_insert, if_neg hne]
  rfl

/-! ## Work within some names -/

/-- All that has been done from one disk to another is that files under some names were put and
removed, and that files with some numbers were written. -/
inductive Within (touched : List (List String)) (written : List Nat) (d : Disk) : Disk → Prop where
  | refl : Within touched written d d
  | place {d' : Disk} {names : List String} (h : Within touched written d d')
      (hmem : names ∈ touched) (hfree : d'.entryAt? names ≠ some .directory) (c : Content) :
      Within touched written d (d'.place names c).1
  | forget {d' : Disk} {names : List String} (h : Within touched written d d')
      (hmem : names ∈ touched) : Within touched written d (d'.forget names)
  | write {d' : Disk} {id : Nat} (h : Within touched written d d') (hmem : id ∈ written)
      (c : Content) : Within touched written d (d'.setContent id c)

namespace Within

theorem trans (h : Within touched written d d') (h' : Within touched written d' d'') :
    Within touched written d d'' := by
  induction h' with
  | refl => exact h
  | place _ hmem hfree c ih => exact .place ih hmem hfree c
  | forget _ hmem ih => exact .forget ih hmem
  | write _ hmem c ih => exact .write ih hmem c

theorem mono (h : Within touched written d d') (htouched : touched ⊆ touched')
    (hwritten : written ⊆ written') : Within touched' written' d d' := by
  induction h with
  | refl => exact .refl
  | place _ hmem hfree c ih => exact .place ih (htouched hmem) hfree c
  | forget _ hmem ih => exact .forget ih (htouched hmem)
  | write _ hmem c ih => exact .write ih (hwritten hmem) c

theorem isSound (h : Within touched written d d') (hsound : d.IsSound) : d'.IsSound := by
  induction h with
  | refl => exact hsound
  | place _ hmem hfree c ih => exact ih.place _ c
  | forget _ hmem ih => exact ih.forget _
  | write _ hmem c ih => exact ih.setContent _ c

/-- A file under another name that has not been written is spared. -/
theorem spares (h : Within touched written d d') (hsound : d.IsSound)
    (hapart : ∀ names ∈ touched, pathOf near ≠ pathOf names)
    (hother : ∀ id ∈ written, d.entryAt? near ≠ some (.file id)) : Spares near d d' := by
  induction h with
  | refl => exact .refl hsound near
  | place _ hmem hfree c ih => exact ih.trans (.place ih.sound (hapart _ hmem) c)
  | forget _ hmem ih => exact ih.trans (.forget ih.sound (hapart _ hmem))
  | @write d₁ id _ hmem c ih =>
      refine ⟨ih.sound.setContent id c, ih.entry, ?_⟩
      intro id' hentry
      have hne : id' ≠ id := by
        rintro rfl
        exact hother id' hmem hentry
      rw [content_setContent_of_ne hne, ih.content id' hentry]

theorem openNamed? (hopen : d.openNamed? names wanted = some (d', id)) (hmem : names ∈ touched) :
    Within touched written d d' := by
  unfold Disk.openNamed? at hopen
  split at hopen
  · cases hopen
  · cases hopen
    exact .refl
  · rename_i hnone
    split_ifs at hopen
    cases hopen
    exact .place .refl hmem (by simp [hnone]) .empty

end Within
/-! ## Names that a path spells -/

/-- The names to which parts lead from some names, whatever is there. -/
def spell (here : List String) : List String → List String
  | [] => here
  | part :: rest =>
      if isIdle part then spell here rest
      else if part = ".." then spell here.dropLast rest
      else spell (here ++ [part]) rest

/-- Where a path leads is told by the path alone, if it leads anywhere. -/
theorem follow_eq_spell (h : d.follow here rest = some names) : names = spell here rest := by
  fun_induction Disk.follow d here rest with
  | case1 here =>
      cases h
      rfl
  | case2 here part rest hidle ih =>
      rw [spell, if_pos hidle]
      exact ih h
  | case3 => cases h
  | case4 rest name names hidle ih =>
      rw [spell, if_neg hidle, if_pos rfl]
      exact ih h
  | case5 => cases h
  | case6 here part rest hidle hup hdir hlength ih =>
      rw [spell, if_neg hidle, if_neg hup]
      exact ih h
  | case7 => cases h
  | case8 here part rest hidle hup hnone ih =>
      rw [spell, if_neg hidle, if_neg hup]
      exact ih h

theorem resolve?_eq_spell (h : d.resolve? path = some names) : names = spell [] (parts path) :=
  follow_eq_spell h

end Disk
end GuardedStore
