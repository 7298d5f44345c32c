import GuardedStore.Proofs.DiskFiles
import GuardedStore.Store.Tabular

/-!
# TableContents — the values in a database, and what work on it does to them

The contents of a database are the rows of the table in its file (`Table.contents`).  To connect to
it makes files beside it and removes them, and may make an empty file, but all of that leaves the
state in the file alone (`connect_looked`), which the connection then has read (`Reads`); only saving
a new state changes it (`Reads.save`, `Serves.save`).

How far an attempt gets is said once for each stage of it: to attach to a file (`Attaching`), to log
changes ahead from then on (`LogStart`), and to open a store (`OpenAttempt`).

So a batch that a tabular store accepts reads from the contents and writes to them, and one that
fails leaves them as they are (`TabularStore.perform_cases`).
-/

namespace GuardedStore
namespace Table

open Disk (pathOf Spares Within)

variable {d d' : Disk} {names : List String} {ending text : String} {id : Nat} {a : Address}
  {c c' : Connection} {e : StoreError} {image : Image} {table : SortedMap String String}

/-! ## Contents -/

/-- The names of the file of the database that a text tells to find.  One that is gone together with
its connection has no file. -/
def namesOf? (text : String) : Option (List String) :=
  match Address.ofText? text with
  | none => none
  | some a => if a.isFleeting then none else some (Disk.spell [] (Disk.parts a.path))

theorem address_of_namesOf? (h : namesOf? text = some names) :
    ∃ a, Address.ofText? text = some a ∧ a.isFleeting = false ∧
      Disk.spell [] (Disk.parts a.path) = names := by
  unfold namesOf? at h
  split at h
  · cases h
  · rename_i a haddress
    split at h
    · cases h
    · rename_i hkept
      exact ⟨a, haddress, Bool.eq_false_iff.2 hkept, Option.some.inj h⟩

theorem namesOf?_of_resolve (haddress : Address.ofText? text = some a)
    (hkept : a.isFleeting = false) (hresolved : d.resolve? a.path = some names) :
    namesOf? text = some names := by
  simp only [namesOf?, haddress, hkept, Disk.resolve?_eq_spell hresolved, Bool.false_eq_true,
    if_false]

/-- The state of the database in the file under some names, which is blank if there is no file. -/
def imageUnder (d : Disk) (names : List String) : Option Image := (d.contentUnder names).image?

/-- The rows in the file under some names: none, if the file or the table is missing. -/
def rowsUnder (d : Disk) (names : List String) : SortedMap String String :=
  match d.entryAt? names with
  | some (.file id) => ((d.content id).image?.bind Image.rows).getD .empty
  | _ => .empty

/-- The values in the database that a text tells to find. -/
def contents (d : Disk) (text : String) : SortedMap String String :=
  match namesOf? text with
  | none => .empty
  | some names => rowsUnder d names

theorem rowsUnder_eq (d : Disk) (names : List String) :
    rowsUnder d names = ((imageUnder d names).bind Image.rows).getD .empty := by
  unfold rowsUnder imageUnder Disk.contentUnder
  rcases d.entryAt? names with _ | _ | id
  · rfl
  · rfl
  · rfl

theorem contents_eq (hnames : namesOf? text = some names) :
    contents d text = rowsUnder d names := by
  unfold contents
  rw [hnames]

/-! ## Files beside the database -/

namespace Connection

theorem intercalate_concat_append (sep : List Char) (l : List (List Char)) (x y : List Char) :
    sep.intercalate (l ++ [x ++ y]) = sep.intercalate (l ++ [x]) ++ y := by
  induction l with
  | nil => simp
  | cons z l ih =>
      -- something comes after the first part, so a separator does
      have hcons : ∀ w,
          sep.intercalate (z :: (l ++ [w])) = z ++ sep ++ sep.intercalate (l ++ [w]) := by
        intro w
        cases l with
        | nil => simp [List.intercalate]
        | cons z' l => simp [List.intercalate]
      rw [List.cons_append, List.cons_append, hcons, hcons, ih]
      simp

theorem pathOf_beside (hne : names ≠ []) :
    pathOf (beside names ending) = pathOf names ++ ending := by
  rcases List.eq_nil_or_concat names with rfl | ⟨front, last, rfl⟩
  · exact absurd rfl hne
  · apply String.toList_injective
    simp only [beside, pathOf, String.toList_intercalate, List.concat_eq_append,
      List.dropLast_concat, List.getLast?_concat, Option.getD_some, List.map_append, List.map_cons,
      List.map_nil, String.toList_append]
    exact intercalate_concat_append _ _ _ _

theorem pathOf_ne_beside (hne : names ≠ []) (hending : ending ≠ "") :
    pathOf names ≠ pathOf (beside names ending) := by
  rw [pathOf_beside hne]
  intro hsame
  have hlength := congrArg String.length hsame
  rw [String.length_append] at hlength
  have hempty : ending.length = 0 := by omega
  exact hending (String.length_eq_zero_iff.1 hempty)

variable {void writable found free : Bool}

/-- A journal that is cleared away is removed or left as it is. -/
theorem clearJournal?_eq (hclear : clearJournal? d names void writable = some d') :
    d' = d ∨ d' = d.forget (journal names) := by
  unfold clearJournal? at hclear
  simp only at hclear
  split at hclear
  · exact Or.inl (Option.some.inj hclear).symm
  · split at hclear
    · exact Or.inl (Option.some.inj hclear).symm
    · cases hclear
  · split at hclear
    · exact Or.inl (Option.some.inj hclear).symm
    · split at hclear
      · exact Or.inr (Option.some.inj hclear).symm
      · split at hclear
        · exact Or.inl (Option.some.inj hclear).symm
        · cases hclear

theorem clearLog?_eq (hclear : clearLog? d names void = some (d', found)) :
    d' = d ∨ d' = d.forget (log names) := by
  unfold clearLog? at hclear
  split at hclear
  · exact Or.inl (congrArg Prod.fst (Option.some.inj hclear)).symm
  · cases hclear
  · split at hclear
    · exact Or.inl (congrArg Prod.fst (Option.some.inj hclear)).symm
    · split at hclear
      · exact Or.inr (congrArg Prod.fst (Option.some.inj hclear)).symm
      · exact Or.inl (congrArg Prod.fst (Option.some.inj hclear)).symm

theorem keepLog?_eq (hkeep : keepLog? d names writable = some (d', free)) :
    d' = (d.forget (log names)).forget (index names) ∨
      d' = leave (leave d (log names)) (index names) := by
  unfold keepLog? at hkeep
  simp only at hkeep
  split at hkeep
  · split at hkeep
    · cases hkeep
    · split at hkeep
      · exact Or.inl (congrArg Prod.fst (Option.some.inj hkeep)).symm
      · exact Or.inr (congrArg Prod.fst (Option.some.inj hkeep)).symm
  · cases hkeep

theorem spares_forget (h : d.IsSound) (hne : names ≠ []) (hending : ending ≠ "") :
    Spares names d (d.forget (beside names ending)) :=
  .forget h (pathOf_ne_beside hne hending)

/-- The names of the files beside that of a database. -/
def besides (names : List String) : List (List String) := [journal names, log names, index names]

theorem apart_besides (hne : names ≠ []) :
    ∀ other ∈ besides names, pathOf names ≠ pathOf other := by
  simp only [besides, List.forall_mem_cons]
  exact ⟨pathOf_ne_beside hne (by decide), pathOf_ne_beside hne (by decide),
    pathOf_ne_beside hne (by decide), List.forall_mem_nil _⟩

theorem within_leave {names : List (List String)} (d : Disk) (hmem : other ∈ names) :
    Within names [] d (leave d other) := by
  unfold leave
  split
  · rename_i hnone
    exact .place .refl hmem (by simp [hnone]) .empty
  · exact .refl

theorem within_clearJournal? (h : clearJournal? d names void writable = some d') :
    Within (besides names) [] d d' := by
  rcases clearJournal?_eq h with rfl | rfl
  · exact .refl
  · exact .forget .refl (by simp [besides])

theorem within_clearLog? (h : clearLog? d names void = some (d', found)) :
    Within (besides names) [] d d' := by
  rcases clearLog?_eq h with rfl | rfl
  · exact .refl
  · exact .forget .refl (by simp [besides])

theorem within_keepLog? (h : keepLog? d names writable = some (d', free)) :
    Within (besides names) [] d d' := by
  rcases keepLog?_eq h with rfl | rfl
  · exact .forget (.forget .refl (by simp [besides])) (by simp [besides])
  · exact (within_leave d (by simp [besides])).trans (within_leave _ (by simp [besides]))

/-! ## Connecting -/

theorem status_unusable : unusable.status = 500 := rfl

theorem status_notADatabase : notADatabase.status = 500 := rfl

/-- What an attempt to connect to a file comes to.  It may find that changes have been logged ahead
before, and goes on with it, or else it needs a journal. -/
inductive Attaching (d : Disk) (a : Address) (names : List String) (id : Nat) :
    Disk → Except StoreError Connection → Prop where
  | refused {d' : Disk} {e : StoreError} (hstatus : e.status = 500)
      (hwithin : Within (besides names) [] d d') : Attaching d a names id d' (.error e)
  | logged {d₁ d₂ d' : Disk} {found free : Bool} {image : Image} (hcan : a.canLog = true)
      (hjournal : clearJournal? d names (d.content id).isVoid a.isWritable = some d₁)
      (hlog : clearLog? d₁ names (d.content id).isVoid = some (d₂, found))
      (himage : (d.content id).image? = some image) (hlogged : (found || image.writeAhead) = true)
      (hkeep : keepLog? d₂ names a.isWritable = some (d', free)) :
      Attaching d a names id d' (.ok ⟨image, some (names, id), a.isWritable && free, true, true,
        a.isWritable && !free⟩)
  | plain {d₁ d' : Disk} {found : Bool} {image : Image}
      (hjournal : clearJournal? d names (d.content id).isVoid a.isWritable = some d₁)
      (hlog : clearLog? d₁ names (d.content id).isVoid = some (d', found))
      (himage : (d.content id).image? = some image)
      (hplain : (found || image.writeAhead) = false) :
      Attaching d a names id d'
        (.ok ⟨image, some (names, id), a.isWritable, a.canLog, false, false⟩)

theorem attaching_of_attach {r : Except StoreError Connection}
    (h : attach d a names id = (d', r)) : Attaching d a names id d' r := by
  unfold attach at h
  simp only at h
  split at h
  · cases h
    exact .refused status_unusable .refl
  · rename_i d₁ hjournal
    have h₁ := within_clearJournal? hjournal
    split at h
    · cases h
      exact .refused status_unusable h₁
    · rename_i d₂ found hlog
      have h₂ := h₁.trans (within_clearLog? hlog)
      -- what is cleared away is beside the file
      have hcontent : d₂.content id = d.content id := by
        rcases clearLog?_eq hlog with rfl | rfl <;>
          rcases clearJournal?_eq hjournal with rfl | rfl <;> simp
      rw [hcontent] at h
      split at h
      · rename_i hlogged
        split at h
        · rename_i hcan
          split at h
          · cases h
            exact .refused status_unusable h₂
          · rename_i hkeep _
            cases h
            exact .refused status_notADatabase (h₂.trans (within_keepLog? hkeep))
          · rename_i d₃ free image hkeep himage
            cases h
            rw [himage, Option.any_some] at hlogged
            exact .logged hcan hjournal hlog himage hlogged hkeep
        · cases h
          exact .refused status_unusable h₂
      · rename_i hplain
        split at h
        · cases h
          exact .refused status_notADatabase h₂
        · rename_i image himage
          cases h
          rw [himage, Option.any_some, Bool.not_eq_true] at hplain
          exact .plain hjournal hlog himage hplain

theorem status_of_attach (h : attach d a names id = (d', .error e)) : e.status = 500 := by
  cases attaching_of_attach h with
  | refused hstatus => exact hstatus

theorem within_attach {r : Except StoreError Connection} (h : attach d a names id = (d', r)) :
    Within (besides names) [] d d' := by
  cases attaching_of_attach h with
  | refused _ hwithin => exact hwithin
  | logged _ hjournal hlog _ _ hkeep =>
      exact ((within_clearJournal? hjournal).trans (within_clearLog? hlog)).trans
        (within_keepLog? hkeep)
  | plain hjournal hlog => exact (within_clearJournal? hjournal).trans (within_clearLog? hlog)

theorem status_of_attachFrozen (h : attachFrozen d names id = .error e) : e.status = 500 := by
  unfold attachFrozen at h
  split at h
  · cases h
    exact status_notADatabase
  · cases h

/-- What is left of an attempt to connect to the file under some names. -/
structure Attached (names : List String) (id : Nat) (d d' : Disk)
    (r : Except StoreError Connection) : Prop where
  spares : Spares names d d'
  ok : ∀ c, r = .ok c → c.file = some (names, id) ∧ (d.content id).image? = some c.image

theorem attached_of_error (hspares : Spares names d d') : Attached names id d d' (.error e) := by
  refine ⟨hspares, ?_⟩
  intro c hc
  cases hc

theorem attached_of_ok (hspares : Spares names d d')
    (hc : c.file = some (names, id) ∧ (d.content id).image? = some c.image) :
    Attached names id d d' (.ok c) := by
  refine ⟨hspares, ?_⟩
  intro c' hc'
  cases hc'
  exact hc

theorem attach_attached (h : d.IsSound) (hentry : d.entryAt? names = some (.file id))
    (a : Address) : Attached names id d (attach d a names id).1 (attach d a names id).2 := by
  have hapart := apart_besides (Disk.entryAt?_eq_some_file.1 hentry).1
  rcases hattach : attach d a names id with ⟨d', r⟩
  have hspares := (within_attach hattach).spares h hapart (List.forall_mem_nil _)
  cases attaching_of_attach hattach with
  | refused => exact attached_of_error hspares
  | logged _ _ _ himage => exact attached_of_ok hspares ⟨rfl, himage⟩
  | plain _ _ himage => exact attached_of_ok hspares ⟨rfl, himage⟩

theorem attachFrozen_attached (h : d.IsSound) (names : List String) (id : Nat) :
    Attached names id d d (attachFrozen d names id) := by
  unfold attachFrozen
  split
  · exact attached_of_error (.refl h names)
  · rename_i image himage
    exact attached_of_ok (.refl h names) ⟨rfl, himage⟩

/-- A connection has read the state of the file under some names. -/
structure Reads (c : Connection) (names : List String) (id : Nat) (d : Disk) : Prop where
  sound : d.IsSound
  file : c.file = some (names, id)
  entry : d.entryAt? names = some (.file id)
  image : (d.content id).image? = some c.image

/-- A connection has read the file of the database that a text tells to find, or has no file. -/
inductive Serves (c : Connection) (d : Disk) (text : String) : Prop where
  | file {names : List String} {id : Nat} (hnames : namesOf? text = some names)
      (hfile : c.file = some (names, id)) (hentry : d.entryAt? names = some (.file id))
      (himage : (d.content id).image? = some c.image)
  | fleeting (hnames : namesOf? text = none) (hfile : c.file = none) (himage : c.image = .blank)

theorem Serves.reads (h : c.Serves d text) (hsound : d.IsSound)
    (hnames : namesOf? text = some names) : ∃ id, c.Reads names id d := by
  cases h with
  | file hnames' hfile hentry himage =>
      cases hnames'.symm.trans hnames
      exact ⟨_, hsound, hfile, hentry, himage⟩
  | fleeting hnone => cases hnone.symm.trans hnames

namespace Reads

theorem imageUnder (h : c.Reads names id d) : imageUnder d names = some c.image := by
  rw [Table.imageUnder, Disk.contentUnder_of_file h.entry, h.image]

theorem ne_nil (h : c.Reads names id d) : names ≠ [] := (Disk.entryAt?_eq_some_file.1 h.entry).1

theorem keep (h : c.Reads names id d) (hspares : Spares names d d') : c.Reads names id d' :=
  ⟨hspares.sound, h.file, hspares.entry.trans h.entry,
    (hspares.content id h.entry).symm ▸ h.image⟩

end Reads

/-- What an attempt to connect to a database comes to: the disk is sound, the file holds what it
held, and a connection that is made serves it. -/
structure Looked (text : String) (d d' : Disk) (r : Except StoreError Connection) : Prop where
  sound : d'.IsSound
  content : ∀ names, namesOf? text = some names → d'.contentUnder names = d.contentUnder names
  serves : ∀ c, r = .ok c → c.Serves d' text

theorem Looked.of_error (h : d.IsSound) : Looked text d d (.error e) := by
  refine ⟨h, fun _ _ => rfl, ?_⟩
  intro c hc
  cases hc

theorem Looked.imageUnder {r : Except StoreError Connection} (h : Looked text d d' r)
    (hnames : namesOf? text = some names) : imageUnder d' names = imageUnder d names := by
  rw [Table.imageUnder, h.content names hnames, ← Table.imageUnder]

theorem Looked.contents {r : Except StoreError Connection} (h : Looked text d d' r) :
    contents d' text = contents d text := by
  unfold Table.contents
  split
  · rfl
  · rename_i names hnames
    rw [rowsUnder_eq, rowsUnder_eq, h.imageUnder hnames]

/-- What comes after the file has been found or made leaves it as it is. -/
theorem Attached.looked {d₁ : Disk} {r : Except StoreError Connection}
    (h : Attached names id d₁ d' r) (hnames : namesOf? text = some names)
    (hentry : d₁.entryAt? names = some (.file id))
    (hcontent : d₁.contentUnder names = d.contentUnder names) : Looked text d d' r := by
  refine ⟨h.spares.sound, ?_, ?_⟩
  · intro names' hnames'
    cases hnames.symm.trans hnames'
    exact h.spares.contentUnder.trans hcontent
  · intro c hc
    rcases h.ok c hc with ⟨hfile, himage⟩
    rw [← h.spares.content id hentry] at himage
    exact .file hnames hfile (h.spares.entry.trans hentry) himage

end Connection

open Connection

theorem status_of_connect (h : (connect d text).2 = .error e) : e.status = 500 := by
  unfold connect at h
  split at h
  · cases h
    exact status_unusable
  · unfold connectTo at h
    split at h
    · cases h
    · split at h
      · cases h
        exact status_unusable
      · split at h
        · cases h
          exact status_unusable
        · split at h
          · cases h
            exact status_unusable
          · split at h
            · exact status_of_attachFrozen h
            · exact status_of_attach (Prod.ext rfl h)

theorem connect_fleeting (haddress : Address.ofText? text = some a)
    (hfleeting : a.isFleeting = true) (d : Disk) :
    connect d text = (d, .ok ⟨.blank, none, a.isWritable, false, false, false⟩) := by
  simp only [connect, haddress, connectTo, hfleeting, if_true]

/-- What it takes to connect to a database in a file. -/
theorem connect_ok (haddress : Address.ofText? text = some a) (hkept : a.isFleeting = false)
    (h : connect d text = (d', .ok c)) :
    ∃ names wanted d₁ id, d.resolve? a.path = some names ∧ d.pathLength names ≤ longestPath ∧
      d.openNamed? names wanted = some (d₁, id) ∧
        ((a.frozen = true ∧ d' = d₁ ∧ attachFrozen d₁ names id = .ok c) ∨
          (a.frozen = false ∧ attach d₁ a names id = (d', .ok c))) := by
  simp only [connect, haddress, connectTo, hkept, Bool.false_eq_true, if_false] at h
  split at h
  · cases h
  · rename_i names hresolve
    split at h
    · cases h
    · rename_i hshort
      split at h
      · cases h
      · rename_i d₁ id hopen
        refine ⟨names, _, d₁, id, hresolve, Nat.le_of_not_lt hshort, hopen, ?_⟩
        split at h
        · rename_i hfrozen
          have hpair : d₁ = d' ∧ attachFrozen d₁ names id = .ok c := Prod.mk.inj h
          exact .inl ⟨hfrozen, hpair.1.symm, hpair.2⟩
        · rename_i hthawed
          exact .inr ⟨Bool.eq_false_iff.2 hthawed, h⟩

/-- To connect to a database leaves its contents as they are. -/
theorem connect_looked (h : d.IsSound) (text : String) :
    Looked text d (connect d text).1 (connect d text).2 := by
  unfold connect
  split
  · exact .of_error h
  · rename_i a haddress
    unfold connectTo
    split
    · -- nothing is kept, neither before nor after
      rename_i hfleeting
      have hnames : namesOf? text = none := by
        rw [namesOf?, haddress]
        exact if_pos hfleeting
      refine ⟨h, fun _ _ => rfl, ?_⟩
      intro c hc
      cases hc
      exact .fleeting hnames rfl rfl
    · rename_i hkept
      split
      · exact .of_error h
      · rename_i names hresolve
        have hnames := namesOf?_of_resolve haddress (Bool.eq_false_iff.2 hkept) hresolve
        split
        · exact .of_error h
        · split
          · exact .of_error h
          · rename_i d₁ id hopen
            have hentry := Disk.entryAt?_of_openNamed? hopen
            have hcontent := Disk.contentUnder_openNamed? h hopen names
            have hsound := h.openNamed? hopen
            split
            · exact (attachFrozen_attached hsound names id).looked hnames hentry hcontent
            · exact (attach_attached hsound hentry a).looked hnames hentry hcontent

/-! ## Saving -/

theorem Connection.Serves.contents_eq (h : c.Serves d text) (hrows : c.image.rows = some table) :
    contents d text = table := by
  cases h with
  | file hnames hfile hentry himage =>
      rw [Table.contents_eq hnames, rowsUnder_eq, imageUnder, Disk.contentUnder_of_file hentry,
        himage, Option.bind_some, hrows]
      rfl
  | fleeting _ hfile himage =>
      rw [himage] at hrows
      cases hrows

/-- A state that is saved is that of the file of the connection, if it has one. -/
theorem save_eq (hsave : c.save d image = .ok d') :
    (c.file = none ∧ d' = d) ∨ ∃ names id, c.file = some (names, id) ∧
      (d' = d.setContent id (.database image) ∨
        d' = (d.forget (journal names)).setContent id (.database image)) := by
  unfold save at hsave
  split at hsave
  · split at hsave
    · rename_i hfile
      exact Or.inl ⟨hfile, (Except.ok.inj hsave).symm⟩
    · rename_i names id hfile
      refine Or.inr ⟨names, id, hfile, ?_⟩
      split at hsave
      · exact Or.inl (Except.ok.inj hsave).symm
      · split at hsave
        · exact Or.inr (Except.ok.inj hsave).symm
        · cases hsave
  · cases hsave

/-- The names beside that of the file of a connection. -/
def Connection.touched (c : Connection) : List (List String) :=
  match c.file with
  | none => []
  | some f => besides f.1

/-- The number of the file of a connection, if there is one. -/
def Connection.written (c : Connection) : List Nat := c.file.toList.map Prod.snd

theorem Connection.touched_eq (hfile : c.file = some (names, id)) : c.touched = besides names := by
  rw [touched, hfile]

theorem Connection.written_eq (hfile : c.file = some (names, id)) : c.written = [id] := by
  rw [written, hfile]
  rfl

theorem within_save (h : c.save d image = .ok d') : Within c.touched c.written d d' := by
  rcases save_eq h with ⟨-, rfl⟩ | ⟨names, id, hfile, rfl | rfl⟩
  · exact .refl
  · rw [written_eq hfile]
    exact .write .refl (List.mem_singleton.2 rfl) _
  · rw [written_eq hfile, touched_eq hfile]
    exact .write (.forget .refl List.mem_cons_self) (List.mem_singleton.2 rfl) _

/-- What an attempt to log changes ahead from now on comes to. -/
inductive LogStart (c : Connection) (d : Disk) : Disk → Except StoreError Connection → Prop where
  -- changes are logged already, or they cannot be
  | idle (hidle : (c.canLog && !c.logs) = false ∨ c.file = none) : LogStart c d d (.ok c)
  | unsaved (e : StoreError) : LogStart c d d (.error e)
  -- it is settled in the file, but no log can be kept
  | unkept {d' : Disk} (hcan : c.canLog = true)
      (hsave : c.save d { c.image with writeAhead := true } = .ok d') :
      LogStart c d d' (.error unusable)
  | begun {d₁ d' : Disk} {names : List String} {id : Nat} {free : Bool} (hcan : c.canLog = true)
      (hfile : c.file = some (names, id))
      (hsave : c.save d { c.image with writeAhead := true } = .ok d₁)
      (hkeep : keepLog? d₁ names c.writable = some (d', free)) :
      LogStart c d d' (.ok { c with
        image := { c.image with writeAhead := true }
        writable := free
        logs := true
        blocked := !free })

theorem logStart_of_startLog {r : Except StoreError Connection} (h : c.startLog d = (d', r)) :
    LogStart c d d' r := by
  unfold startLog at h
  split at h
  · rename_i hlogs
    have hcan : c.canLog = true := (Bool.and_eq_true_iff.1 hlogs).1
    split at h
    · rename_i hfile
      cases h
      exact .idle (.inr hfile)
    · rename_i names id hfile
      simp only at h
      split at h
      · cases h
        exact .unsaved _
      · rename_i d₁ hsave
        split at h
        · cases h
          exact .unkept hcan hsave
        · rename_i d₂ free hkeep
          cases h
          exact .begun hcan hfile hsave hkeep
  · rename_i hidle
    cases h
    exact .idle (.inl (Bool.not_eq_true _ ▸ hidle))

theorem within_startLog {r : Except StoreError Connection} (h : c.startLog d = (d', r)) :
    Within c.touched c.written d d' := by
  cases logStart_of_startLog h with
  | idle => exact .refl
  | unsaved => exact .refl
  | unkept hcan hsave => exact within_save hsave
  | begun hcan hfile hsave hkeep =>
      refine (within_save hsave).trans ?_
      rw [touched_eq hfile]
      exact (within_keepLog? hkeep).mono (List.Subset.refl _) (List.nil_subset _)

theorem status_of_begin (hbegin : c.begin = .error e) : e.status = 500 := by
  unfold Connection.begin at hbegin
  split at hbegin
  · cases hbegin
    rfl
  · cases hbegin

theorem status_of_save (hsave : c.save d image = .error e) : e.status = 500 := by
  unfold save at hsave
  split at hsave
  · split at hsave
    · cases hsave
    · split at hsave
      · cases hsave
      · split at hsave
        · cases hsave
        · cases hsave
          rfl
  · cases hsave
    rfl

/-- A state that is saved is read. -/
theorem Connection.Reads.save (h : c.Reads names id d) (hsave : c.save d image = .ok d')
    (hfile : c'.file = c.file) (himage : c'.image = image) : c'.Reads names id d' := by
  have hread : ∀ d₁, c.Reads names id d₁ →
      c'.Reads names id (d₁.setContent id (.database image)) := by
    intro d₁ h₁
    refine ⟨h₁.sound.setContent id _, hfile.trans h.file, h₁.entry, ?_⟩
    rw [Disk.content_setContent, himage]
    rfl
  rcases save_eq hsave with ⟨hnone, -⟩ | ⟨names', id', hsame, hd'⟩
  · cases hnone.symm.trans h.file
  · cases h.file.symm.trans hsame
    rcases hd' with rfl | rfl
    · exact hread d h
    · exact hread _ (h.keep (spares_forget h.sound h.ne_nil (by decide)))

/-- The contents become what is saved. -/
theorem Connection.Serves.save (h : c.Serves d text) (hsound : d.IsSound)
    (hrows : c.image.rows = some table) (hsave : c.save d image = .ok d') :
    contents d' text = image.rows.getD .empty := by
  cases h with
  | fleeting _ hfile himage =>
      rw [himage] at hrows
      cases hrows
  | @file names id hnames hfile hentry himage =>
      have hreads : c.Reads names id d := ⟨hsound, hfile, hentry, himage⟩
      have hsaved : Connection.Reads { c with image := image } names id d' :=
        hreads.save hsave rfl rfl
      rw [Table.contents_eq hnames, rowsUnder_eq, hsaved.imageUnder, Option.bind_some]

end Table

/-! ## Tabular stores -/

namespace TabularStore

open Table

variable {s : TabularStore} {d d' : Disk} {b : Batch} {key : Key}

theorem looked_connectOpen (h : d.IsSound) (s : TabularStore) :
    Connection.Looked s.path d (s.connectOpen d).1 (s.connectOpen d).2 := by
  unfold connectOpen
  split
  · exact .of_error h
  · exact connect_looked h s.path

theorem status_of_connectOpen {e : StoreError} (h : (s.connectOpen d).2 = .error e) :
    e.status = 500 := by
  unfold connectOpen at h
  split at h
  · cases h
    rfl
  · exact status_of_connect h

theorem status_of_rows {image : Image} {e : StoreError} (h : rows image = .error e) :
    e.status = 500 := by
  unfold rows at h
  split at h
  · cases h
    rfl
  · cases h

theorem rows_ok {image : Image} {table : SortedMap String String} (h : rows image = .ok table) :
    image.rows = some table := by
  unfold rows at h
  split at h
  · cases h
  · rename_i rows hrows
    cases h
    exact hrows

/-- How far an attempt to open a database gets. -/
inductive OpenAttempt (d : Disk) (path : String) : Disk → Except StoreError TabularStore → Prop where
  | unmade {d' : Disk} (e : StoreError) (hparents : d.makeParents path = (d', false)) :
      OpenAttempt d path d' (.error e)
  | unconnected {d₁ d' : Disk} {e : StoreError} (hparents : d.makeParents path = (d₁, true))
      (hconnect : connect d₁ path = (d', .error e)) : OpenAttempt d path d' (.error e)
  | unstarted {d₁ d₂ d' : Disk} {c : Connection} {e : StoreError}
      (hparents : d.makeParents path = (d₁, true)) (hconnect : connect d₁ path = (d₂, .ok c))
      (hstart : c.startLog d₂ = (d', .error e)) : OpenAttempt d path d' (.error e)
  -- the database may not be changed, or not be taken up, or its first state cannot be saved
  | refused {d₁ d₂ d' : Disk} {c c' : Connection} (e : StoreError)
      (hparents : d.makeParents path = (d₁, true)) (hconnect : connect d₁ path = (d₂, .ok c))
      (hstart : c.startLog d₂ = (d', .ok c')) : OpenAttempt d path d' (.error e)
  | opened {d₁ d₂ d₃ d' : Disk} {c c' : Connection} {image : Image}
      (hparents : d.makeParents path = (d₁, true)) (hconnect : connect d₁ path = (d₂, .ok c))
      (hstart : c.startLog d₂ = (d₃, .ok c')) (hbegin : c'.begin = .ok ())
      (hboot : c'.image.bootstrap path = .ok image) (hsave : c'.save d₃ image = .ok d') :
      OpenAttempt d path d' (.ok ⟨path, false⟩)

theorem openAttempt_of_openAt {path : String} {r : Except StoreError TabularStore}
    (h : openAt d path = (d', r)) : OpenAttempt d path d' r := by
  unfold openAt at h
  split at h
  · rename_i hparents
    cases h
    exact .unmade _ hparents
  · rename_i d₁ hparents
    split at h
    · rename_i hconnect
      cases h
      exact .unconnected hparents hconnect
    · rename_i d₂ c hconnect
      split at h
      · rename_i hstart
        cases h
        exact .unstarted hparents hconnect hstart
      · rename_i d₃ c' hstart
        split at h
        · cases h
          exact .refused _ hparents hconnect hstart
        · cases h
          exact .refused _ hparents hconnect hstart
        · rename_i image hbegin hboot
          split at h
          · cases h
            exact .refused _ hparents hconnect hstart
          · rename_i d₄ hsave
            cases h
            exact .opened hparents hconnect hstart hbegin hboot hsave

theorem isSound_openAt (h : d.IsSound) (path : String) : (openAt d path).1.IsSound := by
  have hmade : ∀ {d₁ made}, d.makeParents path = (d₁, made) → d₁.IsSound := by
    intro d₁ made hparents
    have hsound := h.makeParents path
    rwa [hparents] at hsound
  have hlooked : ∀ {d₁ d₂ r}, d.makeParents path = (d₁, true) → connect d₁ path = (d₂, r) →
      d₂.IsSound := by
    intro d₁ d₂ r hparents hconnect
    have hsound := (connect_looked (hmade hparents) path).sound
    rwa [hconnect] at hsound
  rcases hopen : openAt d path with ⟨d', r⟩
  cases openAttempt_of_openAt hopen with
  | unmade e hparents => exact hmade hparents
  | unconnected hparents hconnect => exact hlooked hparents hconnect
  | unstarted hparents hconnect hstart =>
      exact (within_startLog hstart).isSound (hlooked hparents hconnect)
  | refused e hparents hconnect hstart =>
      exact (within_startLog hstart).isSound (hlooked hparents hconnect)
  | opened hparents hconnect hstart hbegin hboot hsave =>
      exact (within_save hsave).isSound
        ((within_startLog hstart).isSound (hlooked hparents hconnect))

/-- A batch fails in the store and leaves the contents, or it reads from them and writes to them. -/
theorem perform_cases (h : d.IsSound) (s : TabularStore) (b : Batch) :
    (∃ d' e, s.perform d b = (d', .error e) ∧ e.status = 500 ∧ d'.IsSound ∧
        contents d' s.path = contents d s.path) ∨
      ∃ d', s.perform d b = (d', .ok (b.readFrom (contents d s.path))) ∧ d'.IsSound ∧
        contents d' s.path = b.writeTo (contents d s.path) := by
  have hlooked := looked_connectOpen h s
  simp only [perform]
  rcases hconnect : s.connectOpen d with ⟨d₁, e | c⟩
  · rw [hconnect] at hlooked
    have hstatus := status_of_connectOpen (congrArg Prod.snd hconnect)
    exact Or.inl ⟨d₁, e, rfl, hstatus, hlooked.sound, hlooked.contents⟩
  · rw [hconnect] at hlooked
    have hsame := hlooked.contents
    simp only
    cases hbegin : c.begin with
    | error e => exact Or.inl ⟨d₁, e, rfl, status_of_begin hbegin, hlooked.sound, hsame⟩
    | ok u =>
        cases hrows : rows c.image with
        | error e => exact Or.inl ⟨d₁, e, rfl, status_of_rows hrows, hlooked.sound, hsame⟩
        | ok table =>
            simp only
            cases hsave : c.save d₁ { c.image with rows := some (b.writeTo table) } with
            | error e => exact Or.inl ⟨d₁, e, rfl, status_of_save hsave, hlooked.sound, hsame⟩
            | ok d₂ =>
                have hserves := hlooked.serves c rfl
                -- the table is what the file held before
                have htable : contents d s.path = table :=
                  hsame.symm.trans (hserves.contents_eq (rows_ok hrows))
                refine Or.inr ⟨d₂, ?_, (within_save hsave).isSound hlooked.sound, ?_⟩
                · rw [htable]
                · rw [htable]
                  exact hserves.save hlooked.sound (rows_ok hrows) hsave

/-- A look-up answers what the contents say, or fails in the store. -/
theorem get_cases (h : d.IsSound) (s : TabularStore) (key : Key) :
    (s.get d key).1.IsSound ∧ contents (s.get d key).1 s.path = contents d s.path ∧
      ((∃ e, (s.get d key).2 = .error e ∧ e.status = 500) ∨
        (s.get d key).2 = .ok ((contents d s.path).get? key.text)) := by
  have hlooked := looked_connectOpen h s
  simp only [get, query]
  rcases hconnect : s.connectOpen d with ⟨d₁, e | c⟩
  · rw [hconnect] at hlooked
    have hstatus := status_of_connectOpen (congrArg Prod.snd hconnect)
    exact ⟨hlooked.sound, hlooked.contents, Or.inl ⟨e, rfl, hstatus⟩⟩
  · rw [hconnect] at hlooked
    refine ⟨hlooked.sound, hlooked.contents, ?_⟩
    simp only
    cases hrows : rows c.image with
    | error e => exact Or.inl ⟨e, rfl, status_of_rows hrows⟩
    | ok table =>
        have htable : contents d s.path = table :=
          hlooked.contents.symm.trans ((hlooked.serves c rfl).contents_eq (rows_ok hrows))
        right
        rw [htable]
        rfl

theorem status_of_perform {e : StoreError} (h : (s.perform d b).2 = .error e) :
    e.status = 500 := by
  unfold perform at h
  rcases hconnect : s.connectOpen d with ⟨d₁, e₁ | c⟩
  · rw [hconnect] at h
    cases h
    exact status_of_connectOpen (congrArg Prod.snd hconnect)
  · rw [hconnect] at h
    simp only at h
    split at h
    · rename_i hbegin
      cases h
      exact status_of_begin hbegin
    · rename_i hrows
      cases h
      exact status_of_rows hrows
    · split at h
      · rename_i hsave
        cases h
        exact status_of_save hsave
      · cases h

theorem status_of_get {e : StoreError} (h : (s.get d key).2 = .error e) : e.status = 500 := by
  unfold get query at h
  rcases hconnect : s.connectOpen d with ⟨d₁, e₁ | c⟩
  · rw [hconnect] at h
    cases h
    exact status_of_connectOpen (congrArg Prod.snd hconnect)
  · rw [hconnect] at h
    simp only at h
    cases hrows : rows c.image with
    | error e₁ =>
        rw [hrows] at h
        cases h
        exact status_of_rows hrows
    | ok table =>
        rw [hrows] at h
        cases h

end TabularStore
end GuardedStore
