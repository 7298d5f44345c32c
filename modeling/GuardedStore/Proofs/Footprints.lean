import GuardedStore.Proofs.TableService

/-!
# Footprints — what work on a disk leaves as it is

Work that stays within some names makes no directory and loses none (`Within.sameDirectories`), and
after it each file still has a single path (`Within.isTidy`).

To connect to a database stays within the names of its file and of those beside it
(`Table.within_connect`), and a connection writes no file but the one that it has read.
-/

namespace GuardedStore
namespace Disk

variable {d d' d'' : Disk} {names near : List String} {touched : List (List String)}
  {written : List Nat} {id : Nat}

/-! ## Directories that stay the same -/

/-- No directory is made and none is lost, and paths start where they did. -/
structure SameDirectories (d d' : Disk) : Prop where
  directory_iff : ∀ names, d'.entryAt? names = some .directory ↔ d.entryAt? names = some .directory
  home : d'.home = d.home

namespace SameDirectories

theorem refl (d : Disk) : SameDirectories d d := ⟨fun _ => Iff.rfl, rfl⟩

theorem trans (h : SameDirectories d d') (h' : SameDirectories d' d'') : SameDirectories d d'' :=
  ⟨fun names => (h'.directory_iff names).trans (h.directory_iff names), h'.home.trans h.home⟩

theorem keeps (h : SameDirectories d d') : KeepsDirectories d d' :=
  fun names => (h.directory_iff names).2

theorem setContent (d : Disk) (id : Nat) (c : Content) : SameDirectories d (d.setContent id c) :=
  ⟨fun _ => Iff.rfl, rfl⟩

theorem forget (d : Disk) (names : List String) : SameDirectories d (d.forget names) := by
  refine ⟨?_, d.home_forget names⟩
  unfold Disk.forget
  split
  · rename_i id hentry
    have hfile := (entryAt?_eq_some_file.1 hentry).2
    intro other
    simp only [entryAt?, SortedMap.get?_erase]
    split_ifs with hempty hsame
    · exact Iff.rfl
    · simp [hsame, hfile]
    · exact Iff.rfl
  · exact fun _ => Iff.rfl

/-- A file that is put where no directory was takes none away. -/
theorem place (hfree : d.entryAt? names ≠ some .directory) (c : Content) :
    SameDirectories d (d.place names c).1 := by
  refine ⟨?_, rfl⟩
  intro other
  refine ⟨?_, KeepsDirectories.insert hfree (.file d.next) _ rfl other⟩
  simp only [entryAt?, Disk.place, SortedMap.get?_insert]
  split_ifs with hempty hsame
  · intro _
    rfl
  · intro hfile
    cases hfile
  · intro hdir
    exact hdir

end SameDirectories

/-! ## Tidy disks -/

/-- Every file that is found has a number from before, and one path only. -/
structure IsTidy (d : Disk) : Prop where
  sound : d.IsSound
  single : ∀ path path' id, d.entries.get? path = some (.file id) →
    d.entries.get? path' = some (.file id) → path = path'

theorem isTidy_empty : IsTidy .empty := by
  refine ⟨isSound_empty, ?_⟩
  intro path path' id h
  cases h

namespace IsTidy

theorem pathOf_eq (h : d.IsTidy) (hnear : d.entryAt? near = some (.file id))
    (hnames : d.entryAt? names = some (.file id)) : pathOf near = pathOf names :=
  h.single _ _ id (entryAt?_eq_some_file.1 hnear).2 (entryAt?_eq_some_file.1 hnames).2

/-- If all files of a disk are files of a tidy one, it is tidy. -/
theorem of_entries (h : d.IsTidy) (hnext : d.next ≤ d'.next)
    (hentries : ∀ path id, d'.entries.get? path = some (.file id) →
      d.entries.get? path = some (.file id)) : d'.IsTidy := by
  refine ⟨?_, ?_⟩
  · intro path id hentry
    exact Nat.lt_of_lt_of_le (h.sound path id (hentries path id hentry)) hnext
  · intro path path' id hentry hentry'
    exact h.single path path' id (hentries path id hentry) (hentries path' id hentry')

theorem setContent (h : d.IsTidy) (id : Nat) (c : Content) : (d.setContent id c).IsTidy :=
  h.of_entries (Nat.le_refl _) (fun _ _ hentry => hentry)

theorem forget (h : d.IsTidy) (names : List String) : (d.forget names).IsTidy := by
  refine h.of_entries ?_ (fun path id hentry => get?_forget_some hentry)
  unfold Disk.forget
  split
  · exact Nat.le_refl _
  · exact Nat.le_refl _

theorem place (h : d.IsTidy) (names : List String) (c : Content) : (d.place names c).1.IsTidy := by
  refine ⟨h.sound.place names c, ?_⟩
  intro path path' id hentry hentry'
  have hnew := Sole.place h.sound names c
  by_cases hid : id = d.next
  · subst hid
    exact (hnew path hentry).trans (hnew path' hentry').symm
  · -- the file was there before, so neither path is the one of the new file
    simp only [Disk.place, SortedMap.get?_insert] at hentry hentry'
    split at hentry
    · cases hentry
      exact absurd rfl hid
    · split at hentry'
      · cases hentry'
        exact absurd rfl hid
      · exact h.single path path' id hentry hentry'

end IsTidy

/-! ## Work within some names -/

namespace Within

theorem sameDirectories (h : Within touched written d d') : SameDirectories d d' := by
  induction h with
  | refl => exact .refl d
  | place _ hmem hfree c ih => exact ih.trans (.place hfree c)
  | forget _ hmem ih => exact ih.trans (.forget _ _)
  | write _ hmem c ih => exact ih.trans (.setContent _ _ c)

theorem isTidy (h : Within touched written d d') (htidy : d.IsTidy) : d'.IsTidy := by
  induction h with
  | refl => exact htidy
  | place _ hmem hfree c ih => exact ih.place _ c
  | forget _ hmem ih => exact ih.forget _
  | write _ hmem c ih => exact ih.setContent _ c

end Within
end Disk

/-! ## Work on databases -/

namespace Table

open Connection
open Disk (Within)

variable {d d' : Disk} {names : List String} {text : String} {id : Nat} {a : Address}
  {c c' : Connection} {r : Except StoreError Connection}

/-- The names of the file of a database and of those beside it. -/
def around (names : List String) : List (List String) := names :: besides names

/-- The names around the file of the database that a text tells to find. -/
def aroundFile (text : String) : List (List String) :=
  match Address.ofText? text with
  | none => []
  | some a => around (Disk.spell [] (Disk.parts a.path))

theorem aroundFile_eq (haddress : Address.ofText? text = some a) :
    aroundFile text = around (Disk.spell [] (Disk.parts a.path)) := by
  rw [aroundFile, haddress]

theorem aroundFile_of_namesOf? (hnames : namesOf? text = some names) :
    aroundFile text = around names := by
  unfold namesOf? at hnames
  split at hnames
  · cases hnames
  · rename_i a haddress
    split_ifs at hnames
    cases hnames
    exact aroundFile_eq haddress

namespace Connection

theorem within_connectTo (h : connectTo d a = (d', r)) :
    Within (around (Disk.spell [] (Disk.parts a.path))) [] d d' := by
  unfold connectTo at h
  split at h
  · cases h
    exact .refl
  · split at h
    · cases h
      exact .refl
    · rename_i names hresolve
      rw [← Disk.resolve?_eq_spell hresolve]
      split at h
      · cases h
        exact .refl
      · split at h
        · cases h
          exact .refl
        · rename_i d₁ id hopen
          have h₁ : Within (around names) [] d d₁ := .openNamed? hopen List.mem_cons_self
          split at h
          · cases h
            exact h₁
          · exact h₁.trans ((within_attach h).mono (List.subset_cons_self _ _) (List.Subset.refl _))

theorem file_of_startLog (h : c.startLog d = (d', .ok c')) : c'.file = c.file := by
  cases logStart_of_startLog h with
  | idle => rfl
  | begun => rfl

/-- A connection touches nothing but what is around the file that it has read, -/
theorem Serves.touched_subset (h : c.Serves d text) : c.touched ⊆ aroundFile text := by
  cases h with
  | file hnames hfile hentry himage =>
      rw [touched_eq hfile, aroundFile_of_namesOf? hnames]
      exact List.subset_cons_self _ _
  | fleeting _ hfile himage =>
      rw [touched, hfile]
      exact List.nil_subset _

/-- and it writes that file only. -/
theorem Serves.exists_of_mem_written (h : c.Serves d text) (hid : id ∈ c.written) :
    ∃ names ∈ aroundFile text, d.entryAt? names = some (.file id) := by
  cases h with
  | @file names file hnames hfile hentry himage =>
      rw [written_eq hfile] at hid
      rw [aroundFile_of_namesOf? hnames, List.mem_singleton.1 hid]
      exact ⟨names, List.mem_cons_self, hentry⟩
  | fleeting _ hfile himage => simp [written, hfile] at hid

end Connection

theorem within_connect (h : connect d text = (d', r)) : Within (aroundFile text) [] d d' := by
  unfold connect at h
  split at h
  · cases h
    exact .refl
  · rename_i a haddress
    rw [aroundFile_eq haddress]
    exact within_connectTo h

end Table
end GuardedStore
