import GuardedStore.Proofs.Footprints

/-!
# TableChanges — databases that can be changed by whoever connects

Opening a database proves that it can be changed: a first state has been saved in it.  What could
hinder later changes are directories in the places beside its file, and connecting, saving and all
that a store does leave the directories as they are, and a file that logs ahead goes on doing so
(`Steady`).  So whatever has been in the file when it was opened, each later connection may begin a
change and save it (`Changeable.connected`).

A connection that logs ahead needs no journal; for the others the name of the file must leave room
for that of a journal (`HasRoom`).  A file can be opened without room for one, and without logging
ahead itself, through a log of another owner that is found beside it and gone afterwards.
-/

namespace GuardedStore
namespace Table

open Connection
open Disk (isName SameDirectories)

variable {d d' : Disk} {names : List String} {text : String} {id : Nat} {a : Address}
  {c c' : Connection} {image : Image} {r : Except StoreError Connection}
  {void found writable free : Bool}

/-! ## Connections to a file -/

/-- A connection whose changes are logged ahead. -/
def loggedConnection (a : Address) (names : List String) (id : Nat) (image : Image) (free : Bool) :
    Connection :=
  ⟨image, some (names, id), a.isWritable && free, true, true, a.isWritable && !free⟩

/-- A connection whose changes need a journal. -/
def plainConnection (a : Address) (names : List String) (id : Nat) (image : Image) : Connection :=
  ⟨image, some (names, id), a.isWritable, a.canLog, false, false⟩

/-- A file that holds nothing has not been logged ahead. -/
theorem not_writeAhead_of_isVoid {content : Content} (h : content.isVoid = true) :
    content.image?.any Image.writeAhead = false := by
  cases content with
  | bytes b =>
      have hsize : b.size ≤ 1 := of_decide_eq_true h
      rw [Content.image?, if_pos hsize]
      rfl
  | database image =>
      have hblank : image = .blank := of_decide_eq_true h
      rw [hblank]
      rfl

/-- A connection that attaches to a file logs changes ahead, if it finds that this has been done
before, or else it needs a journal. -/
theorem attach_ok (h : attach d a names id = (d', .ok c)) :
    (∃ d₁ d₂ found image free, a.canLog = true ∧
        clearJournal? d names false a.isWritable = some d₁ ∧
        clearLog? d₁ names false = some (d₂, found) ∧ (found || image.writeAhead) = true ∧
        keepLog? d₂ names a.isWritable = some (d', free) ∧
        c = loggedConnection a names id image free) ∨
      ∃ image, image.writeAhead = false ∧ c = plainConnection a names id image := by
  cases attaching_of_attach h with
  | @logged d₁ d₂ _ found free image hcan hjournal hlog himage hlogged hkeep =>
      have hvoid : (d.content id).isVoid = false := by
        cases hvoid : (d.content id).isVoid with
        | false => rfl
        | true =>
            have hplain := not_writeAhead_of_isVoid hvoid
            rw [himage, Option.any_some] at hplain
            rw [hvoid] at hlog
            rw [(mute_of_clearLog? hlog).1, hplain] at hlogged
            cases hlogged
      rw [hvoid] at hjournal hlog
      exact .inl ⟨d₁, d₂, found, image, free, hcan, hjournal, hlog, hlogged, hkeep, rfl⟩
  | @plain _ _ _ image _ _ _ hplain =>
      exact .inr ⟨image, (Bool.or_eq_false_iff.1 hplain).2, rfl⟩

/-! ## What stays as it is -/

/-- Changes of the file under some names are logged ahead. -/
def LogsAhead (names : List String) (d : Disk) : Prop :=
  ∃ image, imageUnder d names = some image ∧ image.writeAhead = true

/-- The directories are what they were, and if the file under some names logged ahead, it still
does. -/
structure Steady (names : List String) (d d' : Disk) : Prop where
  directories : SameDirectories d d'
  logs : d.IsSound → LogsAhead names d → d'.IsSound ∧ LogsAhead names d'

namespace Steady

theorem refl (names : List String) (d : Disk) : Steady names d d := ⟨.refl d, fun h h' => ⟨h, h'⟩⟩

theorem openNamed? {wanted : Bool} (hopen : d.openNamed? names wanted = some (d', id)) :
    Steady names d d' := by
  have hwithin : Disk.Within [names] [] d d' := .openNamed? hopen (List.mem_singleton.2 rfl)
  refine ⟨hwithin.sameDirectories, ?_⟩
  rintro hsound ⟨image, himage, hlogs⟩
  refine ⟨hsound.openNamed? hopen, image, ?_, hlogs⟩
  rw [imageUnder, Disk.contentUnder_openNamed? hsound hopen, ← imageUnder, himage]

theorem connect (hnames : namesOf? text = some names)
    (hconnect : Table.connect d text = (d', r)) : Steady names d d' := by
  refine ⟨(within_connect hconnect).sameDirectories, ?_⟩
  rintro hsound ⟨image, himage, hlogs⟩
  have hlooked := connect_looked hsound text
  rw [hconnect] at hlooked
  exact ⟨hlooked.sound, image, (hlooked.imageUnder hnames).trans himage, hlogs⟩

/-- Then a state is saved by which changes are logged ahead as before. -/
theorem save {d₁ : Disk} (h : Steady names d d₁) (hnames : namesOf? text = some names)
    (hserves : d.IsSound → c.Serves d₁ text) (hsave : c.save d₁ image = .ok d')
    (hmode : image.writeAhead = c.image.writeAhead) : Steady names d d' := by
  refine ⟨h.directories.trans (within_save hsave).sameDirectories, ?_⟩
  intro hsound hlogs
  rcases h.logs hsound hlogs with ⟨hsound₁, before, hbefore, hlogs₁⟩
  rcases (hserves hsound).reads hsound₁ hnames with ⟨id, hreads⟩
  cases hreads.imageUnder.symm.trans hbefore
  have hsaved : Connection.Reads { c with image := image } names id d' :=
    hreads.save hsave rfl rfl
  exact ⟨hsaved.sound, image, hsaved.imageUnder, hmode.trans hlogs₁⟩

end Steady

/-! ## Databases that can be changed -/

/-- There is room for the name of a journal beside the file under some names, or no journal is
needed. -/
def Roomy (names : List String) (d : Disk) : Prop :=
  (journal names).getLast?.any isName = true ∨ d.IsSound ∧ LogsAhead names d

theorem Roomy.keep (h : Roomy names d) (hsteady : Steady names d d') : Roomy names d' :=
  h.imp_right fun ⟨hsound, hlogs⟩ => hsteady.logs hsound hlogs

/-- Nothing hinders changes of the file under some names. -/
structure Unhindered (a : Address) (names : List String) (d : Disk) : Prop where
  freeJournal : d.entryAt? (journal names) ≠ some .directory
  freeIndex : a.canLog = true → d.entryAt? (index names) ≠ some .directory
  roomy : Roomy names d

/-- Whoever connects to the database that a text tells to find may change it. -/
def Changeable (text : String) (d : Disk) : Prop :=
  ∀ a, Address.ofText? text = some a → a.isWritable = true ∧
    ∀ names, namesOf? text = some names → Unhindered a names d

theorem Unhindered.keep (h : Unhindered a names d) (hsteady : Steady names d d') :
    Unhindered a names d' := by
  have hsame := hsteady.directories
  refine ⟨?_, ?_, h.roomy.keep hsteady⟩
  · intro hdir
    exact h.freeJournal ((hsame.directory_iff _).1 hdir)
  · intro hcan hdir
    exact h.freeIndex hcan ((hsame.directory_iff _).1 hdir)

theorem Changeable.keep (h : Changeable text d)
    (hsteady : ∀ names, namesOf? text = some names → Steady names d d') : Changeable text d' := by
  intro a haddress
  rcases h a haddress with ⟨hwritable, hfile⟩
  exact ⟨hwritable, fun names hnames => (hfile names hnames).keep (hsteady names hnames)⟩

/-- Without a directory in the place of the index, a log can be written. -/
theorem free_of_keepLog? (h : keepLog? d names true = some (d', free))
    (hindex : d.entryAt? (index names) ≠ some .directory) : free = true := by
  unfold keepLog? at h
  simp only [hindex, decide_false, Bool.false_and, Bool.false_eq_true, if_false, Bool.not_false,
    Bool.true_and, if_true] at h
  split at h
  · cases h
    rfl
  · cases h

/-- A change may begin, and every state can be saved. -/
def Connection.MayChange (c : Connection) (d : Disk) : Prop :=
  c.begin = .ok () ∧ ∀ image, ∃ d', c.save d image = .ok d'

theorem Unhindered.attached (h : Unhindered a names d) (hwritable : a.isWritable = true)
    (hentry : d.entryAt? names = some (.file id)) (hattach : attach d a names id = (d', .ok c)) :
    c.MayChange d' := by
  rcases attach_ok hattach with
    ⟨d₁, d₂, found, image, free, hcan, hjournal, hlog, -, hkept, rfl⟩ | ⟨image, hplain, rfl⟩
  · have hindex : d₂.entryAt? (index names) ≠ some .directory := by
      intro hdir
      have hcleared := (within_clearJournal? hjournal).trans (within_clearLog? hlog)
      have hbefore := hcleared.sameDirectories
      exact h.freeIndex hcan ((hbefore.directory_iff _).1 hdir)
    rw [hwritable] at hkept
    cases free_of_keepLog? hkept hindex
    exact ⟨by simp [begin, loggedConnection],
      fun image' => ⟨_, by simp [save, loggedConnection, hwritable]; rfl⟩⟩
  · have hroom : (journal names).getLast?.any isName = true := by
      rcases h.roomy with hroom | ⟨hsound, before, hbefore, hlogs⟩
      · exact hroom
      · -- the connection would have seen that the file logs ahead
        have hattached := attach_attached hsound hentry a
        rw [hattach] at hattached
        have hread := (hattached.ok _ rfl).2
        rw [imageUnder, Disk.contentUnder_of_file hentry, hread] at hbefore
        cases hbefore
        cases hplain.symm.trans hlogs
    have hjournal : canWriteTo d' (journal names) = true := by
      refine canWriteTo_iff.2 ⟨?_, hroom⟩
      intro hdir
      exact h.freeJournal (((within_attach hattach).sameDirectories.directory_iff _).1 hdir)
    exact ⟨by simp [begin, plainConnection],
      fun image' => ⟨_, by simp [save, plainConnection, hwritable, hjournal]; rfl⟩⟩

/-- Each connection to a database that can be changed may change it. -/
theorem Changeable.connected (h : Changeable text d) (hconnect : connect d text = (d', .ok c)) :
    c.MayChange d' := by
  cases haddress : Address.ofText? text with
  | none => simp [connect, haddress] at hconnect
  | some a =>
      rcases h a haddress with ⟨hwritable, hfile⟩
      cases hkept : a.isFleeting with
      | true =>
          cases (connect_fleeting haddress hkept d).symm.trans hconnect
          exact ⟨rfl, fun image => ⟨_, by simp [save, hwritable]; rfl⟩⟩
      | false =>
          rcases connect_ok haddress hkept hconnect with
            ⟨names, wanted, d₁, id, hresolve, -, hopen, hattach⟩
          have hunhindered := (hfile names (namesOf?_of_resolve haddress hkept hresolve)).keep
            (.openNamed? hopen)
          have hthawed := Address.thawed hkept hwritable
          rcases hattach with ⟨hfrozen, -⟩ | ⟨-, hattach⟩
          · rw [hthawed] at hfrozen
            cases hfrozen
          · exact hunhindered.attached hwritable (Disk.entryAt?_of_openNamed? hopen) hattach

/-! ## Databases that are opened -/

/-- Changes of the database that a text tells to find need no journal, or there is room for one. -/
def HasRoom (text : String) (d : Disk) : Prop := ∀ names, namesOf? text = some names → Roomy names d

theorem canWriteTo_of_save {image' : Image}
    (h : (plainConnection a names id image).save d image' = .ok d') :
    a.isWritable = true ∧ canWriteTo d (journal names) = true := by
  cases hwritable : a.isWritable with
  | false => simp [save, plainConnection, hwritable] at h
  | true =>
      rw [plainConnection, hwritable] at h
      exact ⟨rfl, (save_plain h).1⟩

theorem clearJournal?_ne_directory (h : clearJournal? d names false writable = some d') :
    d'.entryAt? (journal names) ≠ some .directory := by
  intro hdir
  have hbefore := ((within_clearJournal? h).sameDirectories.directory_iff _).1 hdir
  simp [clearJournal?, hbefore] at h

/-- Where a log has been kept, nothing hinders later changes if there is room for a journal or none
is needed. -/
theorem unhindered_of_keepLog? {d₁ : Disk} (hkeep : keepLog? d names true = some (d₁, true))
    (hfile : d.entryAt? (journal names) ≠ some .directory) (hsame : SameDirectories d₁ d')
    (hroom : Roomy names d') : Unhindered a names d' := by
  rcases keepLog?_free hkeep with ⟨-, -, hindex⟩
  have hkept := (within_keepLog? hkeep).sameDirectories.trans hsame
  refine ⟨?_, ?_, hroom⟩
  · intro hdir
    exact hfile ((hkept.directory_iff _).1 hdir)
  · intro _ hdir
    exact hindex ((hkept.directory_iff _).1 hdir)

/-- A connection that has begun to log changes, or cannot, and has saved a state has met nothing
that would hinder it. -/
theorem unhindered_of_attach {d₁ d₂ : Disk} (hattach : attach d a names id = (d₁, .ok c))
    (hstart : c.startLog d₁ = (d₂, .ok c')) (hbegin : c'.begin = .ok ())
    (hsave : c'.save d₂ image = .ok d') (hroom : Roomy names d') :
    a.isWritable = true ∧ Unhindered a names d' := by
  have hsaved := (within_save hsave).sameDirectories
  rcases attach_ok hattach with
    ⟨d₃, d₄, found, image₁, free, hcan, hjournal, hlog, -, hkept, rfl⟩ | ⟨image₁, -, rfl⟩
  · simp only [startLog, loggedConnection, Bool.not_true, Bool.and_false, Bool.false_eq_true,
      if_false] at hstart
    cases hstart
    have hfree : (a.isWritable && free) = true := by
      cases hwritable : (a.isWritable && free) with
      | true => rfl
      | false => simp [save, hwritable] at hsave
    rcases Bool.and_eq_true_iff.1 hfree with ⟨hwritable, rfl⟩
    rw [hwritable] at hkept
    have hfile : d₄.entryAt? (journal names) ≠ some .directory := by
      intro hdir
      have hsame := (within_clearLog? hlog).sameDirectories
      exact clearJournal?_ne_directory hjournal ((hsame.directory_iff _).1 hdir)
    exact ⟨hwritable, unhindered_of_keepLog? hkept hfile hsaved hroom⟩
  · cases logStart_of_startLog hstart with
    | idle hidle =>
        have hcan : a.canLog = false := by simpa [plainConnection] using hidle
        rcases canWriteTo_of_save hsave with ⟨hwritable, hjournal⟩
        refine ⟨hwritable, ?_, fun hlog => absurd hlog (by simp [hcan]), hroom⟩
        intro hdir
        exact (canWriteTo_iff.1 hjournal).1 ((hsaved.directory_iff _).1 hdir)
    | @begun d₃ _ _ _ free _ hnames hfirst hkept =>
        cases hnames
        rcases canWriteTo_of_save hfirst with ⟨hwritable, hjournal⟩
        have hfree : free = true := by simpa [begin] using hbegin
        simp only [plainConnection, hwritable, hfree] at hkept
        have hfile : d₃.entryAt? (journal names) ≠ some .directory := by
          intro hdir
          have hsame := (within_save hfirst).sameDirectories
          exact (canWriteTo_iff.1 hjournal).1 ((hsame.directory_iff _).1 hdir)
        exact ⟨hwritable, unhindered_of_keepLog? hkept hfile hsaved hroom⟩

theorem attachFrozen_ok (h : attachFrozen d names id = .ok c) :
    c.canLog = false ∧ c.writable = false := by
  unfold attachFrozen at h
  split at h
  · cases h
  · cases h
    exact ⟨rfl, rfl⟩

theorem startLog_of_canLog (h : c.canLog = false) : c.startLog d = (d, .ok c) := by
  simp only [startLog, h, Bool.false_and, Bool.false_eq_true, if_false]

/-- Opening a database in a file attaches to it and saves a state in it. -/
theorem attach_of_openAt {s : TabularStore} (hopen : TabularStore.openAt d text = (d', .ok s))
    (haddress : Address.ofText? text = some a) (hkept : a.isFleeting = false) :
    ∃ names id d₁ d₂ d₃ c c' image, namesOf? text = some names ∧
      attach d₁ a names id = (d₂, .ok c) ∧ c.startLog d₂ = (d₃, .ok c') ∧ c'.begin = .ok () ∧
      c'.save d₃ image = .ok d' := by
  rcases openAt_ok hopen with
    ⟨d₁, d₂, d₃, c, c', image, -, hconnect, hstart, hbegin, -, hsave, -⟩
  rcases connect_ok haddress hkept hconnect with
    ⟨names, wanted, d₄, id, hresolve, -, -, hattach⟩
  rcases hattach with ⟨-, -, hattach⟩ | ⟨-, hattach⟩
  · -- a file that nobody changes cannot be opened, as no state can be saved in it
    rcases attachFrozen_ok hattach with ⟨hlogless, hreadOnly⟩
    rw [startLog_of_canLog hlogless] at hstart
    cases hstart
    simp [save, hreadOnly] at hsave
  · exact ⟨names, id, d₄, d₂, d₃, c, c', image, namesOf?_of_resolve haddress hkept hresolve,
      hattach, hstart, hbegin, hsave⟩

/-- A database that has been opened can be changed. -/
theorem changeable_of_openAt {s : TabularStore} (hopen : TabularStore.openAt d text = (d', .ok s))
    (hroom : HasRoom text d') : Changeable text d' := by
  intro a haddress
  cases hkept : a.isFleeting with
  | true =>
      rcases openAt_ok hopen with ⟨d₁, d₂, d₃, c, c', image, -, hconnect, hstart, -, -, hsave, -⟩
      cases (connect_fleeting haddress hkept d₁).symm.trans hconnect
      cases hstart
      have hnone : namesOf? text = none := by
        simp only [namesOf?, haddress, hkept, if_true]
      refine ⟨?_, ?_⟩
      · cases hwritable : a.isWritable with
        | true => rfl
        | false => simp [save, hwritable] at hsave
      · intro names hnames
        cases hnone.symm.trans hnames
  | false =>
      rcases attach_of_openAt hopen haddress hkept with
        ⟨names, id, d₁, d₂, d₃, c, c', image, hnames, hattach, hstart, hbegin, hsave⟩
      rcases unhindered_of_attach hattach hstart hbegin hsave (hroom names hnames) with
        ⟨hwritable, hunhindered⟩
      refine ⟨hwritable, ?_⟩
      intro names' hnames'
      cases hnames.symm.trans hnames'
      exact hunhindered

end Table

/-! ## Stores that go on -/

namespace TabularStore

open Table

variable {s : TabularStore} {d d' : Disk} {names : List String} {r : Except StoreError Connection}

theorem steady_connectOpen (hnames : namesOf? s.path = some names)
    (h : s.connectOpen d = (d', r)) : Steady names d d' := by
  unfold connectOpen at h
  split at h
  · cases h
    exact .refl names d
  · exact .connect hnames h

theorem steady_query {α : Type} (hnames : namesOf? s.path = some names) (d : Disk)
    (ask : SortedMap String String → Except StoreError α) : Steady names d (s.query d ask).1 := by
  unfold query
  rcases hconnect : s.connectOpen d with ⟨d₁, e | c⟩
  · exact steady_connectOpen hnames hconnect
  · exact steady_connectOpen hnames hconnect

theorem steady_perform (hnames : namesOf? s.path = some names) (d : Disk) (b : Batch) :
    Steady names d (s.perform d b).1 := by
  unfold perform
  rcases hconnect : s.connectOpen d with ⟨d₁, e | c⟩
  · exact steady_connectOpen hnames hconnect
  · have h₁ := steady_connectOpen hnames hconnect
    simp only
    split
    · exact h₁
    · exact h₁
    · split
      · exact h₁
      · rename_i d₂ hsave
        refine h₁.save hnames ?_ hsave rfl
        intro hsound
        have hlooked := looked_connectOpen hsound s
        rw [hconnect] at hlooked
        exact hlooked.serves c rfl

theorem steady_close (hnames : namesOf? s.path = some names) (d : Disk) :
    Steady names d (s.close d).2.1 := by
  unfold close
  split
  · exact .refl names d
  · simp only
    rcases hconnect : connect d s.path with ⟨d₁, e | c⟩
    · exact .connect hnames hconnect
    · exact .connect hnames hconnect

theorem path_close (s : TabularStore) (d : Disk) : (s.close d).1.path = s.path := by
  unfold close
  split
  · rfl
  · simp only
    rcases connect d s.path with ⟨d₁, e | c⟩
    · rfl
    · rfl

end TabularStore
end GuardedStore
