import GuardedStore.Proofs.StoredValues

/-!
# SeparatePlaces — stores that are opened beside others

Opening a store makes the directories on the way to its files (`Disk.Grown`), and then touches
nothing but these files (`Disk.Opened`).  Which they are is told by its kind and its path, so that
it can be told in advance whether two places are `Separate`.  To open a store spares the stores in
all places that are separate from its own (`Store.spared_of_openAt`), whatever there is on the disk.
-/

namespace GuardedStore
namespace Disk

variable {d d' d'' : Disk} {here there rest names near : List String}
  {way touched : List (List String)} {path : String} {id : Nat}

/-! ## Ways -/

/-- The names through which parts lead from some names, up to the last. -/
def passes (here : List String) : List String → List (List String)
  | [] => [here]
  | part :: rest =>
      here :: (if isIdle part then passes here rest
        else if part = ".." then passes here.dropLast rest
        else passes (here ++ [part]) rest)

theorem self_mem_passes (here rest : List String) : here ∈ passes here rest := by
  cases rest with
  | nil => exact List.mem_singleton.2 rfl
  | cons part rest => exact List.mem_cons_self

theorem walk_eq_spell (h : d.walk here rest = some there) : there = spell here rest := by
  fun_induction walk d here rest with
  | case1 here =>
      cases h
      rfl
  | case2 here part rest hidle ih =>
      rw [spell, if_pos hidle]
      exact ih h
  | case3 here rest hidle ih =>
      rw [spell, if_neg hidle, if_pos rfl]
      exact ih h
  | case4 here part rest hidle hup hdir ih =>
      rw [spell, if_neg hidle, if_neg hup]
      exact ih h
  | case5 => cases h

theorem spell_append (here first second : List String) :
    spell here (first ++ second) = spell (spell here first) second := by
  fun_induction spell here first with
  | case1 here => rfl
  | case2 here part rest hidle ih => rw [List.cons_append, spell, if_pos hidle, ih]
  | case3 here rest hidle ih => rw [List.cons_append, spell, if_neg hidle, if_pos rfl, ih]
  | case4 here part rest hidle hup ih =>
      rw [List.cons_append, spell, if_neg hidle, if_neg hup, ih]

/-- Where a file is found or can be made is told by its path. -/
theorem place?_eq_spell (h : d.place? path = some names) : names = spell [] (parts path) := by
  unfold place? at h
  split at h
  · cases h
  · rename_i last hlast
    split_ifs at h with hname
    rcases Option.map_eq_some_iff.1 h with ⟨there, hwalk, rfl⟩
    have hsplit : parts path = (parts path).dropLast ++ [last] :=
      (List.dropLast_append_getLast? last hlast).symm
    have hlastName : isIdle last = false ∧ last ≠ ".." := by
      simp only [isName, Bool.and_eq_true, Bool.not_eq_true', bne_iff_ne] at hname
      exact ⟨hname.2.1.1.1, hname.2.1.1.2⟩
    rw [hsplit, spell_append, ← walk_eq_spell hwalk, spell, if_neg (by simp [hlastName.1]),
      if_neg hlastName.2, spell]

/-- A path that is followed by its text goes on leading where it did, unless a file gets into its
way or one of its names is too long for a directory. -/
theorem follow_keep (h : d.follow here rest = some names)
    (hshort : ∀ part ∈ rest, part.utf8ByteSize ≤ longestName)
    (hfiles : ∀ near ∈ passes here rest, ∀ id, d'.entryAt? near = some (.file id) →
      d.entryAt? near = some (.file id)) : d'.follow here rest = some names := by
  fun_induction follow d here rest with
  | case1 here => exact h
  | case2 here part rest hidle ih =>
      rw [passes, if_pos hidle] at hfiles
      unfold follow
      rw [if_pos hidle]
      exact ih h (List.forall_mem_cons.1 hshort).2 (List.forall_mem_cons.1 hfiles).2
  | case3 => cases h
  | case4 rest name here hidle ih =>
      rw [passes, if_neg hidle, if_pos rfl] at hfiles
      unfold follow
      rw [if_neg hidle, if_pos rfl]
      exact ih h (List.forall_mem_cons.1 hshort).2 (List.forall_mem_cons.1 hfiles).2
  | case5 => cases h
  | case6 here part rest hidle hup hdir hlength ih =>
      rw [passes, if_neg hidle, if_neg hup] at hfiles
      have hnext := ih h (List.forall_mem_cons.1 hshort).2 (List.forall_mem_cons.1 hfiles).2
      unfold follow
      rw [if_neg hidle, if_neg hup]
      split
      · rename_i id hentry
        cases hdir.symm.trans ((List.forall_mem_cons.1 hfiles).1 id hentry)
      · rw [if_pos hlength, hnext]
      · exact hnext
  | case7 => cases h
  | case8 here part rest hidle hup hnone ih =>
      rw [passes, if_neg hidle, if_neg hup] at hfiles
      have hnext := ih h (List.forall_mem_cons.1 hshort).2 (List.forall_mem_cons.1 hfiles).2
      unfold follow
      rw [if_neg hidle, if_neg hup]
      split
      · rename_i id hentry
        cases hnone.symm.trans ((List.forall_mem_cons.1 hfiles).1 id hentry)
      · rw [if_pos (List.forall_mem_cons.1 hshort).1, hnext]
      · exact hnext

/-! ## Directories that are made -/

/-- Directories have been made under some names where nothing was, and nothing else was done. -/
structure Grown (way : List (List String)) (d d' : Disk) : Prop where
  keeps : d.KeepsDirectories d'
  home : d'.home = d.home
  next : d'.next = d.next
  contents : d'.contents = d.contents
  files : ∀ path id, d'.entries.get? path = some (.file id) → d.entries.get? path = some (.file id)
  elsewhere : ∀ path, (∀ names ∈ way, path ≠ pathOf names) →
    d'.entries.get? path = d.entries.get? path

namespace Grown

theorem refl (way : List (List String)) (d : Disk) : Grown way d d :=
  ⟨.refl d, rfl, rfl, rfl, fun _ _ hfile => hfile, fun _ _ => rfl⟩

theorem trans (h : Grown way d d') (h' : Grown way d' d'') : Grown way d d'' := by
  refine ⟨h.keeps.trans h'.keeps, h'.home.trans h.home, h'.next.trans h.next,
    h'.contents.trans h.contents, ?_, ?_⟩
  · intro path id hfile
    exact h.files path id (h'.files path id hfile)
  · intro path hpath
    exact (h'.elsewhere path hpath).trans (h.elsewhere path hpath)

theorem mkdir (hmem : names ∈ way) (hnone : d.entryAt? names = none) :
    Grown way d { d with entries := d.entries.insert (pathOf names) .directory } := by
  refine ⟨.insert (by simp [hnone]) .directory _ rfl, rfl, rfl, rfl, ?_, ?_⟩
  · intro path id hfile
    simp only [SortedMap.get?_insert] at hfile
    split at hfile
    · cases hfile
    · exact hfile
  · intro path hpath
    simp only [SortedMap.get?_insert, if_neg (hpath names hmem)]

theorem makeWay (hway : passes here rest ⊆ way) : Grown way d (d.makeWay here rest).1 := by
  fun_induction Disk.makeWay d here rest with
  | case1 d here => exact .refl way d
  | case2 d here part rest hidle ih =>
      rw [passes, if_pos hidle] at hway
      exact ih (List.subset_of_cons_subset hway)
  | case3 d here rest hidle ih =>
      rw [passes, if_neg hidle, if_pos rfl] at hway
      exact ih (List.subset_of_cons_subset hway)
  | case4 d here part rest hidle hup names hdir ih =>
      rw [passes, if_neg hidle, if_neg hup] at hway
      exact ih (List.subset_of_cons_subset hway)
  | case5 d here part rest hidle hup names id hfile => exact .refl way d
  | case6 d here part rest hidle hup names hnone hname ih =>
      rw [passes, if_neg hidle, if_neg hup] at hway
      have hrest := List.subset_of_cons_subset hway
      exact (mkdir (hrest (self_mem_passes _ _)) hnone).trans (ih hrest)
  | case7 d here part rest hidle hup names hnone hname => exact .refl way d

theorem isTidy (h : Grown way d d') (htidy : d.IsTidy) : d'.IsTidy :=
  htidy.of_entries (Nat.le_of_eq h.next.symm) h.files

theorem spares (h : Grown way d d') (hsound : d.IsSound)
    (hapart : ∀ names ∈ way, pathOf near ≠ pathOf names) : Spares near d d' := by
  refine .of_entries ?_ (h.elsewhere _ hapart) ?_
  · intro path id hfile
    rw [h.next]
    exact hsound path id (h.files path id hfile)
  · intro id _
    rw [content, content, h.contents]

end Grown

/-- The names on the way to a file with a path. -/
def wayTo (path : String) : List (List String) := passes [] (parts (parent path))

theorem grown_makeParents (d : Disk) (path : String) :
    Grown (wayTo path) d (d.makeParents path).1 := by
  unfold makeParents makeDirectory
  split_ifs
  · exact .refl _ d
  · exact .makeWay (List.Subset.refl _)
  · exact .refl _ d

/-! ## Files that are opened -/

/-- Files under some names have been found or made, and after that some of them were written. -/
def Opened (touched : List (List String)) (d d' : Disk) : Prop :=
  ∃ d₁ written, Within touched [] d d₁ ∧
    (∀ id ∈ written, ∃ names ∈ touched, d₁.entryAt? names = some (.file id)) ∧
      Within touched written d₁ d'

namespace Opened

theorem sameDirectories (h : Opened touched d d') : SameDirectories d d' := by
  rcases h with ⟨d₁, written, hfound, -, hwithin⟩
  exact hfound.sameDirectories.trans hwithin.sameDirectories

theorem isTidy (h : Opened touched d d') (htidy : d.IsTidy) : d'.IsTidy := by
  rcases h with ⟨d₁, written, hfound, -, hwithin⟩
  exact hwithin.isTidy (hfound.isTidy htidy)

/-- On a tidy disk, a file under another name is not among the files that are written. -/
theorem spares (h : Opened touched d d') (htidy : d.IsTidy)
    (hapart : ∀ names ∈ touched, pathOf near ≠ pathOf names) : Spares near d d' := by
  rcases h with ⟨d₁, written, hfound, hnumbers, hwithin⟩
  have hfirst := hfound.spares htidy.sound hapart nofun
  refine hfirst.trans (hwithin.spares hfirst.sound hapart ?_)
  intro id hid hnear
  rcases hnumbers id hid with ⟨names, hmem, hentry⟩
  exact hapart names hmem ((hfound.isTidy htidy).pathOf_eq hnear hentry)

theorem andThen (h : Opened touched d d') (h' : Within touched [] d' d'') :
    Opened touched d d'' := by
  rcases h with ⟨d₁, written, hfound, hnumbers, hwithin⟩
  exact ⟨d₁, written, hfound, hnumbers,
    hwithin.trans (h'.mono (List.Subset.refl _) (List.nil_subset _))⟩

end Opened
end Disk

/-! ## Opening a store -/

open Disk (Grown Opened Spares Within parts passes pathOf spell wayTo)

namespace CommitLog

variable {log log' : CommitLog} {d d' : Disk} {path : String} {replay : Log.Replay} {seq : UInt64}
  {change : Log.Change}

theorem opened_of_openAt (h : openAt d path = (d', .ok (log, replay))) :
    ∃ d₁, d.makeParents path = (d₁, true) ∧ Opened [spell [] (parts path)] d₁ d' := by
  rcases openAt_ok h with ⟨d₁, d₂, bytes, hparents, hopen, -, rfl, -, -⟩
  refine ⟨d₁, hparents, ?_⟩
  unfold Disk.open? at hopen
  split at hopen
  · cases hopen
  · rename_i names hplace
    cases Disk.place?_eq_spell hplace
    have hmem : spell [] (parts path) ∈ [spell [] (parts path)] := List.mem_singleton.2 rfl
    have hentry := Disk.entryAt?_of_openNamed? hopen
    refine ⟨d₂, [log.file], .openNamed? hopen hmem, ?_, .write .refl (List.mem_singleton.2 rfl) _⟩
    intro id hid
    rw [List.mem_singleton.1 hid]
    exact ⟨_, hmem, hentry⟩

theorem within_of_compact (h : log.compact d seq change = .ok (d', log')) :
    Within [spell [] (parts log.path)] [] d d' := by
  unfold compact at h
  split at h
  · cases h
  · split at h
    · cases h
    · rename_i hreplace
      cases h
      unfold Disk.replace? at hreplace
      split at hreplace
      · cases hreplace
      · rename_i names hplace
        cases Disk.place?_eq_spell hplace
        split at hreplace
        · cases hreplace
        · rename_i hfree
          cases hreplace
          exact .place .refl (List.mem_singleton.2 rfl) hfree _

end CommitLog

theorem VersionedStore.opened_of_openAt {s : VersionedStore} {d d' : Disk} {path : String}
    {settings : StorageSettings} (h : openAt d path settings = (d', .ok s)) :
    ∃ d₁, d.makeParents path = (d₁, true) ∧ Opened [spell [] (parts path)] d₁ d' := by
  rcases log_of_openAt h with ⟨d₂, log, replay, hlog⟩
  rcases CommitLog.opened_of_openAt hlog with ⟨d₁, hparents, hopened⟩
  rcases CommitLog.openAt_ok hlog with ⟨_, _, _, -, -, -, -, -, hopenedLog⟩
  have hpath : log.path = path := by rw [hopenedLog]; rfl
  refine ⟨d₁, hparents, ?_⟩
  unfold openAt at h
  rw [hlog] at h
  simp only at h
  split at h
  · split at h
    · cases h
    · rename_i hcompact
      cases h
      have hwithin := CommitLog.within_of_compact hcompact
      rw [hpath] at hwithin
      exact hopened.andThen hwithin
  · cases h
    exact hopened

theorem TabularStore.opened_of_openAt {s : TabularStore} {d d' : Disk} {text : String}
    (hsound : d.IsSound) (h : openAt d text = (d', .ok s)) :
    ∃ d₁, d.makeParents text = (d₁, true) ∧ Opened (Table.aroundFile text) d₁ d' := by
  rcases Table.openAt_ok h with
    ⟨d₁, d₂, d₃, c, c', image, hparents, hconnect, hstart, -, -, hsave, -⟩
  have hsound₁ := hsound.makeParents text
  rw [hparents] at hsound₁
  have hserves : c.Serves d₂ text := by
    have hlooked := Table.connect_looked hsound₁ text
    rw [hconnect] at hlooked
    exact hlooked.serves c rfl
  have hsaved := Table.within_save hsave
  rw [Table.Connection.touched, Table.Connection.written,
    Table.Connection.file_of_startLog hstart] at hsaved
  have hworked := (Table.within_startLog hstart).trans hsaved
  exact ⟨d₁, hparents, d₂, c.written, Table.within_connect hconnect,
    fun id => hserves.exists_of_mem_written,
    hworked.mono hserves.touched_subset (List.Subset.refl _)⟩

namespace Store

variable {s t : Store} {d d' : Disk} {kind : StoreKind} {path : String} {settings : StorageSettings}
  {file file' : Nat} {values old : Values}

/-- The names of the files that belong to the store in a place. -/
def filesOf : StoreKind × String → List (List String)
  | (.versioned, path) => [spell [] (parts path)]
  | (.tabular, path) => Table.aroundFile path

theorem opened_of_openAt (hsound : d.IsSound)
    (hopen : openAt d kind path settings = (d', .ok s)) :
    ∃ d₁, d.makeParents path = (d₁, true) ∧ Opened (filesOf (kind, path)) d₁ d' := by
  cases kind with
  | versioned =>
      rcases versioned_of_openAt hopen with ⟨v, -, hresult⟩
      exact VersionedStore.opened_of_openAt hresult
  | tabular =>
      rcases tabular_of_openAt hopen with ⟨t, -, hresult⟩
      exact TabularStore.opened_of_openAt hsound hresult

theorem isTidy_of_openAt (htidy : d.IsTidy) (hopen : openAt d kind path settings = (d', .ok s)) :
    d'.IsTidy := by
  rcases opened_of_openAt htidy.sound hopen with ⟨d₁, hparents, hopened⟩
  have hgrown := Disk.grown_makeParents d path
  rw [hparents] at hgrown
  exact hopened.isTidy (hgrown.isTidy htidy)

/-- The parts of the path that is followed by its text to find a store. -/
def followed : StoreKind × String → List String
  | (.versioned, _) => []
  | (.tabular, text) => match Table.Address.ofText? text with
    | none => []
    | some a => parts a.path

/-- A store that is opened in one place has nothing to do with the store in another one: neither
place has files of the other, nor do they get in the way to the files of the first. -/
structure Separate (place place' : StoreKind × String) : Prop where
  files : ∀ near ∈ filesOf place, ∀ names ∈ filesOf place' ++ wayTo place'.2,
    pathOf near ≠ pathOf names
  way : ∀ near ∈ passes [] (followed place), ∀ names ∈ filesOf place', pathOf near ≠ pathOf names
  short : ∀ part ∈ followed place, part.utf8ByteSize ≤ Disk.longestName

/-- A store is spared if its files are, and if no file gets into the way to them. -/
theorem spared_of_spares (hkeep : d.KeepsDirectories d') (hhome : d'.home = d.home)
    (hspares : ∀ near ∈ filesOf s.place, Spares near d d')
    (hshort : ∀ part ∈ followed s.place, part.utf8ByteSize ≤ Disk.longestName)
    (hway : ∀ near ∈ passes [] (followed s.place), ∀ id, d'.entryAt? near = some (.file id) →
      d.entryAt? near = some (.file id)) : s.Spared d d' := by
  refine ⟨hkeep, hhome, ?_, ?_⟩
  · rintro v names rfl hplace
    cases Disk.place?_eq_spell hplace
    exact hspares _ (List.mem_singleton.2 rfl)
  · rintro t a names rfl haddress hresolve
    have hfollowed : followed (place (.tabular t)) = parts a.path := by
      simp only [followed, place, haddress]
    have hfiles : filesOf (place (.tabular t)) = Table.around names := by
      rw [Disk.resolve?_eq_spell hresolve]
      exact Table.aroundFile_eq haddress
    rw [hfollowed] at hshort hway
    rw [hfiles] at hspares
    exact ⟨Disk.follow_keep hresolve hshort hway, hspares⟩

/-- To open a store spares those in separate places. -/
theorem spared_of_openAt (htidy : d.IsTidy) (hopen : openAt d kind path settings = (d', .ok t))
    (hseparate : Separate s.place (kind, path)) : s.Spared d d' := by
  rcases opened_of_openAt htidy.sound hopen with ⟨d₁, hparents, hopened⟩
  have hgrown := Disk.grown_makeParents d path
  rw [hparents] at hgrown
  have htidy₁ := hgrown.isTidy htidy
  refine spared_of_spares (hgrown.keeps.trans hopened.sameDirectories.keeps)
    (hopened.sameDirectories.home.trans hgrown.home) ?_ hseparate.short ?_
  · intro near hnear
    have hapart := List.forall_mem_append.1 (hseparate.files near hnear)
    exact (hgrown.spares htidy.sound hapart.2).trans (hopened.spares htidy₁ hapart.1)
  · intro near hnear id hentry
    -- a file that is new under these names would be one of the other store
    have hsame := (hopened.spares htidy₁ (hseparate.way near hnear)).entry
    rcases Disk.entryAt?_eq_some_file.1 (hsame.symm.trans hentry) with ⟨hne, hfile⟩
    exact Disk.entryAt?_eq_some_file.2 ⟨hne, hgrown.files _ _ hfile⟩

/-! ## Stores that are used beside each other -/

/-- The file in which a store keeps its values is found under a name of its place. -/
theorem Keeps.exists_entry (h : s.Keeps file values d) :
    ∃ names ∈ filesOf s.place, d.entryAt? names = some (.file file) := by
  cases s with
  | versioned s =>
      rcases h with ⟨rfl, -, hlogged⟩
      rcases hlogged.linked.found with ⟨names, hplace, hentry⟩
      cases Disk.place?_eq_spell hplace
      exact ⟨_, List.mem_singleton.2 rfl, hentry⟩
  | tabular s =>
      rcases Table.Tabled.serving h with ⟨a, names, haddress, hserving⟩
      refine ⟨names, ?_, hserving.entry⟩
      rw [place, filesOf, Table.aroundFile_eq haddress, ← Disk.resolve?_eq_spell hserving.resolved]
      exact List.mem_cons_self

/-- What is found under the names of one place is not the file of a store in a separate one. -/
theorem Keeps.ne_of_separate (ht : t.Keeps file' old d) (htidy : d.IsTidy)
    (hseparate : Separate s.place t.place) {near : List String} (hnear : near ∈ filesOf s.place) :
    d.entryAt? near ≠ some (.file file') := by
  intro hentry
  rcases ht.exists_entry with ⟨names, hnames, hentry'⟩
  exact hseparate.files near hnear names (List.mem_append_left _ hnames)
    (htidy.pathOf_eq hentry hentry')

/-- Stores in separate places keep their values in different files. -/
theorem Keeps.file_ne (hs : s.Keeps file values d) (ht : t.Keeps file' old d) (htidy : d.IsTidy)
    (hseparate : Separate s.place t.place) : file ≠ file' := by
  rintro rfl
  rcases hs.exists_entry with ⟨near, hnear, hentry⟩
  exact ht.ne_of_separate htidy hseparate hnear hentry

/-- To write the file of a store spares those in separate places. -/
theorem Keeps.spared_of_written (ht : t.Keeps file' old d) (htidy : d.IsTidy)
    (hseparate : Separate s.place t.place) (hwritten : Disk.Written file' d d') :
    s.Spared d d' := by
  have hwithin := hwritten.within
  have hsame := hwithin.sameDirectories
  refine spared_of_spares hsame.keeps hsame.home ?_ hseparate.short ?_
  · intro near hnear
    refine hwithin.spares htidy.sound nofun ?_
    intro id hid
    rw [List.mem_singleton.1 hid]
    exact ht.ne_of_separate htidy hseparate hnear
  · intro near _ id hentry
    rwa [Disk.entryAt?, hwritten.entries] at hentry

end Store
end GuardedStore
