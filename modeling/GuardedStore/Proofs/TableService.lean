import GuardedStore.Proofs.TableContents

/-!
# TableService — databases that every connection finds again

A connection to a database lets go of its file when its work is done, so the next call depends on
nothing but what is on the disk.  `Serving` says that the file of a database and those beside it are
such that a connection is made, may change the state, and leaves the disk as it was
(`Serving.connect`); a state that is saved is served in turn (`Serving.saved`).  A database that is
opened for the first time is served with an empty table (`serving_of_openAt`).
-/

namespace GuardedStore
namespace Disk

variable {d d' : Disk} {names other : List String} {path : String} {id : Nat} {e : DiskEntry}

/-! ## Files that are forgotten -/

theorem get?_forget_some (h : (d.forget other).entries.get? path = some e) :
    d.entries.get? path = some e := by
  unfold forget at h
  split at h
  · rw [SortedMap.get?_erase] at h
    split at h
    · cases h
    · exact h
  · exact h

theorem entryAt?_forget_cases (d : Disk) (names other : List String) :
    (d.forget other).entryAt? names = d.entryAt? names ∨
      (d.forget other).entryAt? names = none := by
  unfold forget
  split
  · unfold entryAt?
    rw [SortedMap.get?_erase]
    split_ifs
    · exact .inl rfl
    · exact .inr rfl
    · exact .inl rfl
  · exact .inl rfl

theorem entryAt?_forget_of_none (h : d.entryAt? names = none) (other : List String) :
    (d.forget other).entryAt? names = none :=
  (entryAt?_forget_cases d names other).elim (fun hsame => hsame.trans h) id

theorem entryAt?_forget_ne_directory (h : d.entryAt? names ≠ some .directory)
    (other : List String) : (d.forget other).entryAt? names ≠ some .directory := by
  rcases entryAt?_forget_cases d names other with hsame | hnone
  · rwa [hsame]
  · rw [hnone]
    exact nofun

/-- A name that does not lead to a directory leads nowhere once it is forgotten. -/
theorem entryAt?_forget_self (h : d.entryAt? names ≠ some .directory) :
    (d.forget names).entryAt? names = none := by
  cases hentry : d.entryAt? names with
  | none => exact entryAt?_forget_of_none hentry names
  | some e =>
      cases e with
      | directory => exact absurd hentry h
      | file id =>
          have hne : ¬ names.isEmpty = true := by
            simpa using (entryAt?_eq_some_file.1 hentry).1
          unfold forget
          rw [hentry]
          simp only [entryAt?, if_neg hne, SortedMap.get?_erase, if_true]

theorem forget_of_none (h : d.entryAt? names = none) : d.forget names = d := by
  unfold forget
  rw [h]

/-- Where a path leads is a matter of entries, not of contents. -/
theorem follow_setContent (d : Disk) (id : Nat) (c : Content) (here rest : List String) :
    (d.setContent id c).follow here rest = d.follow here rest := by
  have hentry : ∀ names, (d.setContent id c).entryAt? names = d.entryAt? names := fun _ => rfl
  induction rest generalizing here with
  | nil => rfl
  | cons part rest ih =>
      simp only [follow, hentry, ih]

theorem resolve?_setContent (d : Disk) (id : Nat) (c : Content) (path : String) :
    (d.setContent id c).resolve? path = d.resolve? path :=
  follow_setContent d id c [] (parts path)

/-- Only one path leads to a file. -/
def Sole (d : Disk) (names : List String) (id : Nat) : Prop :=
  ∀ path, d.entries.get? path = some (.file id) → path = pathOf names

namespace Sole

theorem place (h : d.IsSound) (names : List String) (c : Content) :
    Sole (d.place names c).1 names d.next := by
  intro path hentry
  simp only [Disk.place, SortedMap.get?_insert] at hentry
  split at hentry
  · assumption
  · exact absurd (h path d.next hentry) (Nat.lt_irrefl _)

theorem forget (h : d.Sole names id) (other : List String) : (d.forget other).Sole names id := by
  intro path hentry
  exact h path (get?_forget_some hentry)

/-- A file under another path is another file. -/
theorem ne_of_entryAt? {id' : Nat} (h : d.Sole names id) (hne : pathOf other ≠ pathOf names)
    (hentry : d.entryAt? other = some (.file id')) : id' ≠ id := by
  rintro rfl
  exact hne (h _ (entryAt?_eq_some_file.1 hentry).2)

end Sole
end Disk

namespace Table

open Connection
open Disk (pathOf isName)

variable {d d' : Disk} {names : List String} {text : String} {id : Nat} {a : Address}
  {c : Connection} {image image' : Image} {logs : Bool}

/-! ## Databases that are served -/

/-- What is beside the file of a database, before and after each connection: nothing, or else an
empty file in the place of a log, if none is kept. -/
structure Beside (names : List String) (id : Nat) (logs : Bool) (d : Disk) : Prop where
  noJournal : d.entryAt? (journal names) = none
  journalName : (journal names).getLast?.any isName = true
  noLog : d.entryAt? (log names) = none ∨ logs = false ∧
    ∃ id', d.entryAt? (log names) = some (.file id') ∧ id' ≠ id ∧ (d.bytes id').size = 0
  logName : logs = true → (log names).getLast?.any isName = true
  noIndex : logs = true → d.entryAt? (index names) = none

/-- A database with some state that connections find and may change. -/
structure Serving (a : Address) (names : List String) (id : Nat) (image : Image) (d : Disk) :
    Prop where
  kept : a.isFleeting = false
  writable : a.isWritable = true
  resolved : d.resolve? a.path = some names
  short : d.pathLength names ≤ longestPath
  entry : d.entryAt? names = some (.file id)
  content : d.content id = .database image
  taken : image ≠ .blank
  canLog : image.writeAhead = true → a.canLog = true
  beside : Beside names id image.writeAhead d

namespace Beside

theorem clearJournal? (h : Beside names id logs d) (void writable : Bool) :
    Connection.clearJournal? d names void writable = some d := by
  simp only [Connection.clearJournal?, h.noJournal]

theorem clearLog? (h : Beside names id logs d) (void : Bool) :
    Connection.clearLog? d names void = some (d, false) := by
  rcases h.noLog with hnone | ⟨-, id', hentry, -, hempty⟩
  · simp only [Connection.clearLog?, hnone]
  · simp only [Connection.clearLog?, hentry, hempty, if_true]

theorem keepLog? (h : Beside names id true d) :
    Connection.keepLog? d names true = some (d, true) := by
  have hlog : d.entryAt? (log names) = none := h.noLog.resolve_right (fun hfile => nomatch hfile.1)
  have hindex := h.noIndex rfl
  have hwrite : canWriteTo d (log names) = true := by
    simp [canWriteTo, hlog, h.logName rfl]
  have hgone : (d.forget (log names)).forget (index names) = d := by
    rw [Disk.forget_of_none hlog, Disk.forget_of_none hindex]
  simp [Connection.keepLog?, hwrite, hindex, hgone]

theorem canWriteTo_journal (h : Beside names id logs d) : canWriteTo d (journal names) = true := by
  simp [canWriteTo, h.noJournal, h.journalName]

theorem setContent (h : Beside names id logs d) (c : Content) :
    Beside names id logs (d.setContent id c) := by
  refine ⟨h.noJournal, h.journalName, ?_, h.logName, h.noIndex⟩
  rcases h.noLog with hnone | ⟨hlogs, id', hentry, hother, hempty⟩
  · exact .inl hnone
  · refine .inr ⟨hlogs, id', hentry, hother, ?_⟩
    rw [Disk.bytes, Disk.content_setContent_of_ne hother]
    exact hempty

end Beside

theorem Address.thawed (hkept : a.isFleeting = false) (hwritable : a.isWritable = true) :
    a.frozen = false := by
  have hnamed : a.isNameless = false := by
    simp only [Address.isFleeting, Bool.or_eq_false_iff] at hkept
    exact hkept.1
  simp only [Address.isWritable, hnamed, Bool.false_or, Bool.and_eq_true,
    Bool.not_eq_true'] at hwritable
  exact hwritable.2

namespace Serving

/-- Whoever connects finds the state and may change it, and leaves the disk as it was. -/
theorem connect (h : Serving a names id image d) (haddress : Address.ofText? text = some a) :
    Table.connect d text =
      (d, .ok ⟨image, some (names, id), true, a.canLog, image.writeAhead, false⟩) := by
  have hthawed := Address.thawed h.kept h.writable
  have hvoid : (d.content id).isVoid = false := by
    simpa [h.content, Content.isVoid] using h.taken
  have himage : (d.content id).image? = some image := by rw [h.content]; rfl
  have hlength := Nat.not_lt.2 h.short
  have hjournal := h.beside.clearJournal? false true
  have hlog := h.beside.clearLog? false
  simp only [Table.connect, haddress, connectTo, h.kept, h.resolved, hlength, Disk.openNamed?,
    h.entry, hthawed, attach, hvoid, h.writable, hjournal, hlog, himage, Bool.false_eq_true,
    if_false, Option.any_some, Bool.false_or]
  cases hmode : image.writeAhead with
  | false => simp
  | true =>
      have hbeside := h.beside
      rw [hmode] at hbeside
      simp [hbeside.keepLog?, h.canLog hmode]

/-- The state that a connection saves is in the file. -/
theorem save (h : Serving a names id image d) (image' : Image) :
    Connection.save ⟨image, some (names, id), true, a.canLog, image.writeAhead, false⟩ d image' =
      .ok (d.setContent id (.database image')) := by
  have hwrite := h.beside.canWriteTo_journal
  have hgone : d.forget (journal names) = d := Disk.forget_of_none h.beside.noJournal
  unfold Connection.save
  cases hmode : image.writeAhead with
  | true => simp
  | false => simp [hwrite, hgone]

/-- A state that is saved is served in turn. -/
theorem saved (h : Serving a names id image d) (hmode : image'.writeAhead = image.writeAhead)
    (htaken : image' ≠ .blank) :
    Serving a names id image' (d.setContent id (.database image')) := by
  refine ⟨h.kept, h.writable, ?_, h.short, h.entry, ?_, htaken, ?_, ?_⟩
  · rw [Disk.resolve?_setContent]
    exact h.resolved
  · exact Disk.content_setContent d id _
  · rw [hmode]
    exact h.canLog
  · rw [hmode]
    exact h.beside.setContent _

/-- The contents of the database are the rows in its state. -/
theorem contents (h : Serving a names id image d) (haddress : Address.ofText? text = some a)
    (hrows : image.rows = some table) : Table.contents d text = table := by
  rw [contents_eq (namesOf?_of_resolve haddress h.kept h.resolved), rowsUnder, h.entry]
  simp only [h.content, Content.image?, Option.bind_some, hrows, Option.getD_some]

end Serving

/-! ## Files that have just been made -/

/-- The file of a database is there, and no other path leads to it. -/
structure Made (names : List String) (id : Nat) (d : Disk) : Prop where
  sound : d.IsSound
  entry : d.entryAt? names = some (.file id)
  sole : d.Sole names id

/-- Nothing is in the place of a log, or an empty file. -/
def Mute (names : List String) (d : Disk) : Prop :=
  d.entryAt? (log names) = none ∨
    ∃ id, d.entryAt? (log names) = some (.file id) ∧ (d.bytes id).size = 0

namespace Made

variable {ending : String}

theorem ne_nil (h : Made names id d) : names ≠ [] := (Disk.entryAt?_eq_some_file.1 h.entry).1

theorem forget (h : Made names id d) (hending : ending ≠ "") :
    Made names id (d.forget (beside names ending)) := by
  have hspares := spares_forget h.sound h.ne_nil hending
  exact ⟨hspares.sound, hspares.entry.trans h.entry, h.sole.forget _⟩

theorem setContent (h : Made names id d) (id' : Nat) (c : Content) :
    Made names id (d.setContent id' c) :=
  ⟨h.sound.setContent id' c, h.entry, h.sole⟩

theorem place (h : d.IsSound) (hne : names ≠ []) (c : Content) :
    Made names d.next (d.place names c).1 :=
  ⟨h.place names c, Disk.entryAt?_insert (d := d) hne rfl, .place h names c⟩

end Made

theorem canWriteTo_iff : canWriteTo d names = true ↔
    d.entryAt? names ≠ some .directory ∧ names.getLast?.any isName = true := by
  simp [canWriteTo]

theorem Mute.forget (h : Mute names d) (other : List String) : Mute names (d.forget other) := by
  rcases Disk.entryAt?_forget_cases d (log names) other with hsame | hnone
  · simpa only [Mute, hsame, Disk.bytes, Disk.content_forget] using h
  · exact .inl hnone

/-- A log that was left beside a file that holds no database is not there any more, or empty. -/
theorem mute_of_clearLog? {found : Bool} (h : clearLog? d names true = some (d', found)) :
    found = false ∧ Mute names d' := by
  unfold clearLog? at h
  split at h
  · rename_i hnone
    cases h
    exact ⟨rfl, .inl hnone⟩
  · cases h
  · rename_i id hentry
    split at h
    · rename_i hempty
      cases h
      exact ⟨rfl, .inr ⟨id, hentry, hempty⟩⟩
    · simp only [if_true, Option.some.injEq, Prod.mk.injEq] at h
      rcases h with ⟨rfl, rfl⟩
      exact ⟨rfl, .inl (Disk.entryAt?_forget_self (by rw [hentry]; exact nofun))⟩

/-- Without a log, nothing that counts is left beside a file once the journal is removed. -/
theorem Made.beside_plain (h : Made names id d) (hmute : Mute names d)
    (hwrite : canWriteTo d (journal names) = true) :
    Beside names id false (d.forget (journal names)) := by
  rcases canWriteTo_iff.1 hwrite with ⟨hfile, hname⟩
  refine ⟨Disk.entryAt?_forget_self hfile, hname, ?_, nofun, nofun⟩
  rcases hmute.forget (journal names) with hnone | ⟨id', hentry, hempty⟩
  · exact .inl hnone
  · have hother : pathOf (log names) ≠ pathOf names :=
      Ne.symm (pathOf_ne_beside h.ne_nil (by decide))
    exact .inr ⟨rfl, id', hentry, (h.sole.forget _).ne_of_entryAt? hother hentry, hempty⟩

/-- A log that can be written is kept for the time of the connection only. -/
theorem keepLog?_free (h : keepLog? d names true = some (d', true)) :
    d' = (d.forget (log names)).forget (index names) ∧ canWriteTo d (log names) = true ∧
      d.entryAt? (index names) ≠ some .directory := by
  unfold keepLog? at h
  simp only at h
  split at h
  · rename_i hwrite
    split at h
    · cases h
    · split at h
      · rename_i hfree
        cases h
        exact ⟨rfl, hwrite, by simpa using hfree⟩
      · rename_i hblocked
        simp only [Option.some.injEq, Prod.mk.injEq] at h
        simp_all
  · cases h

/-- With a log, nothing is left beside a file once the journal is removed and the log is kept. -/
theorem beside_logging (hwrite : canWriteTo d (journal names) = true)
    (hkeep : keepLog? ((d.forget (journal names)).setContent id (.database image)) names true =
      some (d', true)) : Beside names id true d' := by
  rcases canWriteTo_iff.1 hwrite with ⟨hfile, hname⟩
  rcases keepLog?_free hkeep with ⟨rfl, hlog, hindex⟩
  rcases canWriteTo_iff.1 hlog with ⟨hlogFile, hlogName⟩
  have hjournal : ((d.forget (journal names)).setContent id (.database image)).entryAt?
      (journal names) = none := Disk.entryAt?_forget_self hfile
  refine ⟨?_, hname, .inl ?_, fun _ => hlogName, fun _ => ?_⟩
  · exact Disk.entryAt?_forget_of_none (Disk.entryAt?_forget_of_none hjournal _) _
  · exact Disk.entryAt?_forget_of_none (Disk.entryAt?_forget_self hlogFile) _
  · exact Disk.entryAt?_forget_self (Disk.entryAt?_forget_ne_directory hindex _)

/-! ## Opening for the first time -/

/-- The first connection to a database whose file it has made. -/
def firstConnection (a : Address) (names : List String) (id : Nat) : Connection :=
  ⟨.blank, some (names, id), a.isWritable, a.canLog, false, false⟩

/-- What the first connection to a database makes of the disk. -/
structure Begun (a : Address) (names : List String) (id : Nat) (d d' : Disk) : Prop where
  made : Made names id d'
  short : d.pathLength names ≤ longestPath
  home : d'.home = d.home
  mute : a.frozen = false → Mute names d'

/-- Whether or not a file beside it is forgotten, the file is there. -/
theorem Made.spared {ending : String} (h : Made names id d) (hending : ending ≠ "")
    (heq : d' = d ∨ d' = d.forget (beside names ending)) :
    Made names id d' ∧ d'.home = d.home := by
  rcases heq with rfl | rfl
  · exact ⟨h, rfl⟩
  · exact ⟨h.forget hending, Disk.home_forget d _⟩

theorem attach_of_made (h : Made names id d) (hempty : d.content id = .empty)
    (hattach : attach d a names id = (d', .ok c)) :
    c = firstConnection a names id ∧ Made names id d' ∧ d'.home = d.home ∧ Mute names d' := by
  have hvoid : (d.content id).isVoid = true := by rw [hempty]; rfl
  have hblank : (d.content id).image? = some .blank := by rw [hempty]; rfl
  cases attaching_of_attach hattach with
  | logged _ _ hlog himage hlogged =>
      -- no log is left beside a file that holds nothing, and nothing has been logged
      cases hblank.symm.trans himage
      rw [hvoid] at hlog
      rw [(mute_of_clearLog? hlog).1] at hlogged
      cases hlogged
  | plain hjournal hlog himage =>
      cases hblank.symm.trans himage
      rw [hvoid] at hlog
      rcases h.spared (by decide) (clearJournal?_eq hjournal) with ⟨hmade₁, hhome₁⟩
      rcases hmade₁.spared (by decide) (clearLog?_eq hlog) with ⟨hmade₂, hhome₂⟩
      exact ⟨rfl, hmade₂, hhome₂.trans hhome₁, (mute_of_clearLog? hlog).2⟩

/-- A file that nobody changes is not written by its connections either. -/
theorem attachFrozen_of_made (hempty : d.content id = .empty) (hkept : a.isFleeting = false)
    (hfrozen : a.frozen = true) : attachFrozen d names id = .ok (firstConnection a names id) := by
  have hreadOnly : a.isWritable = false := by
    cases hwritable : a.isWritable with
    | false => rfl
    | true => exact absurd (Address.thawed hkept hwritable) (by simp [hfrozen])
  have hlogless : a.canLog = false := by simp [Address.canLog, hfrozen]
  rw [attachFrozen, hempty, firstConnection, hreadOnly, hlogless]
  rfl

/-- A connection that makes its file finds a blank database. -/
theorem connect_of_new (hsound : d.IsSound) (haddress : Address.ofText? text = some a)
    (hkept : a.isFleeting = false) (hnames : Disk.spell [] (Disk.parts a.path) = names)
    (hnone : d.entryAt? names = none) (hconnect : connect d text = (d', .ok c)) :
    c = firstConnection a names d.next ∧ Begun a names d.next d d' := by
  have hne : names ≠ [] := by
    rintro rfl
    cases hnone
  rcases connect_ok haddress hkept hconnect with
    ⟨names', wanted, d₁, id, hresolve, hshort, hopen, hattach⟩
  cases (Disk.resolve?_eq_spell hresolve).trans hnames
  rw [Disk.openNamed?, hnone] at hopen
  simp only at hopen
  split_ifs at hopen
  cases hopen
  have hmade : Made names d.next (d.place names .empty).1 := .place hsound hne .empty
  have hempty : (d.place names .empty).1.content d.next = .empty := by
    simp [Disk.content, Disk.place, SortedMap.get?_insert]
  rcases hattach with ⟨hfrozen, rfl, hattach⟩ | ⟨-, hattach⟩
  · -- nothing beside a file that nobody changes is looked at
    cases (attachFrozen_of_made hempty hkept hfrozen).symm.trans hattach
    refine ⟨rfl, hmade, hshort, rfl, fun hthawed => ?_⟩
    rw [hfrozen] at hthawed
    cases hthawed
  · rcases attach_of_made hmade hempty hattach with ⟨hc, hmade', hhome, hmute⟩
    exact ⟨hc, hmade', hshort, hhome, fun _ => hmute⟩

/-- The state of a database with an empty table. -/
def newImage (logs : Bool) : Image :=
  ⟨productId, logs, some [(productId.toInt, (newestSchema : Int))], some .empty, []⟩

theorem bootstrap_blank (path : String) (logs : Bool) :
    Image.bootstrap path { Image.blank with writeAhead := logs } = .ok (newImage logs) := by
  cases logs <;> rfl

theorem save_plain {canLog : Bool} (hsave : Connection.save
    ⟨image, some (names, id), true, canLog, false, false⟩ d image' = .ok d') :
    canWriteTo d (journal names) = true ∧
      d' = (d.forget (journal names)).setContent id (.database image') := by
  simp only [Connection.save, if_true, Bool.false_eq_true, if_false] at hsave
  split at hsave
  · rename_i hwrite
    cases hsave
    exact ⟨hwrite, rfl⟩
  · cases hsave

/-- The first connection begins to log changes if it can. -/
theorem startLog_of_made (h : Made names id d) (hwritable : a.isWritable = true)
    (hstart : (firstConnection a names id).startLog d = (d', .ok c)) (hbegin : c.begin = .ok ()) :
    (a.canLog = false ∧ c = firstConnection a names id ∧ d' = d) ∨
      c = ⟨{ Image.blank with writeAhead := true }, some (names, id), true, true, true, false⟩ ∧
        a.canLog = true ∧ d'.home = d.home ∧ Made names id d' ∧ Beside names id true d' := by
  cases logStart_of_startLog hstart with
  | idle hidle =>
      refine .inl ⟨?_, rfl, rfl⟩
      simpa [firstConnection] using hidle
  | @begun d₁ _ names' id' free hcan hfile hsave hkeep =>
      cases hfile
      simp only [firstConnection, hwritable] at hcan hsave hkeep hbegin ⊢
      rcases save_plain hsave with ⟨hwrite, rfl⟩
      -- a log that cannot be kept would block the change
      have hfree : free = true := by
        simpa [Connection.begin] using hbegin
      subst hfree
      rcases keepLog?_free hkeep with ⟨rfl, -⟩
      refine .inr ⟨by rw [hcan]; rfl, hcan, ?_, ?_, beside_logging hwrite hkeep⟩
      · simp only [Disk.home_forget]
        exact Disk.home_forget d _
      · have hgone : Made names id (d.forget (journal names)) := h.forget (by decide)
        exact ((hgone.setContent id _).forget (by decide)).forget (by decide)

/-- Opening a database has made its file: nothing was there before, and now the path leads to it. -/
def IsNew (d d' : Disk) (text : String) : Prop :=
  ∃ a names, Address.ofText? text = some a ∧ a.isFleeting = false ∧
    (d.makeParents text).1.entryAt? names = none ∧ d'.resolve? a.path = some names

/-- Opening saves the first state, so the database may be written. -/
theorem isWritable_of_save (hstart : (firstConnection a names id).startLog d = (d', .ok c))
    {d'' : Disk} (hsave : c.save d' image = .ok d'') : a.isWritable = true := by
  cases hwritable : a.isWritable with
  | true => rfl
  | false =>
      have hnever : ∀ image', ¬ ∃ d'', (firstConnection a names id).save d image' = .ok d'' := by
        simp [firstConnection, Connection.save, hwritable]
      cases logStart_of_startLog hstart with
      | idle => exact absurd ⟨_, hsave⟩ (hnever _)
      | begun _ _ hfirst _ => exact absurd ⟨_, hfirst⟩ (hnever _)

/-- The first state is served. -/
theorem Made.serving (h : Made names id d) (hbeside : Beside names id logs d)
    (hkept : a.isFleeting = false) (hwritable : a.isWritable = true)
    (hcan : logs = true → a.canLog = true) (hshort : d.pathLength names ≤ longestPath)
    (hresolved : (d.setContent id (.database (newImage logs))).resolve? a.path = some names) :
    Serving a names id (newImage logs) (d.setContent id (.database (newImage logs))) := by
  refine ⟨hkept, hwritable, hresolved, hshort, h.entry, Disk.content_setContent d id _, ?_, hcan,
    hbeside.setContent _⟩
  intro hblank
  have hrows : (newImage logs).rows = none := by
    rw [hblank]
    rfl
  cases hrows

/-- Without a log, the state that is saved first is served. -/
theorem Begun.serving_plain (h : Begun a names id d d') (hkept : a.isFleeting = false)
    (hwritable : a.isWritable = true) {d'' : Disk}
    (hsave : (firstConnection a names id).save d' (newImage false) = .ok d'')
    (hresolved : d''.resolve? a.path = some names) :
    Serving a names id (newImage false) d'' := by
  rw [firstConnection, hwritable] at hsave
  rcases save_plain hsave with ⟨hwrite, rfl⟩
  have hmade : Made names id (d'.forget (journal names)) := h.made.forget (by decide)
  have hbeside := h.made.beside_plain (h.mute (Address.thawed hkept hwritable)) hwrite
  have hshort : (d'.forget (journal names)).pathLength names ≤ longestPath := by
    rw [Disk.pathLength, Disk.home_forget, h.home]
    exact h.short
  exact hmade.serving hbeside hkept hwritable nofun hshort hresolved

/-- What it takes to open a database. -/
theorem openAt_ok {s : TabularStore} (h : TabularStore.openAt d text = (d', .ok s)) :
    ∃ d₁ d₂ d₃ c c' image, d.makeParents text = (d₁, true) ∧ connect d₁ text = (d₂, .ok c) ∧
      c.startLog d₂ = (d₃, .ok c') ∧ c'.begin = .ok () ∧ c'.image.bootstrap text = .ok image ∧
      c'.save d₃ image = .ok d' ∧ s = ⟨text, false⟩ := by
  cases TabularStore.openAttempt_of_openAt h with
  | opened hparents hconnect hstart hbegin hboot hsave =>
      exact ⟨_, _, _, _, _, _, hparents, hconnect, hstart, hbegin, hboot, hsave, rfl⟩

/-- A database that is opened for the first time is served with an empty table. -/
theorem serving_of_openAt {s : TabularStore} (hsound : d.IsSound)
    (hopen : TabularStore.openAt d text = (d', .ok s)) (hnew : IsNew d d' text) :
    s = ⟨text, false⟩ ∧ ∃ a names id, Address.ofText? text = some a ∧
      Serving a names id (newImage a.canLog) d' := by
  rcases hnew with ⟨a, names, haddress, hkept, hnone, hresolved⟩
  rcases openAt_ok hopen with
    ⟨d₁, d₂, d₃, c, c', image, hparents, hconnect, hstart, hbegin, hboot, hsave, rfl⟩
  have hnames : Disk.spell [] (Disk.parts a.path) = names := (Disk.resolve?_eq_spell hresolved).symm
  have hsound₁ := hsound.makeParents text
  rw [hparents] at hnone hsound₁
  rcases connect_of_new hsound₁ haddress hkept hnames hnone hconnect with ⟨rfl, hbegun⟩
  have hwritable := isWritable_of_save hstart hsave
  refine ⟨rfl, a, names, d₁.next, ?_⟩
  rcases startLog_of_made hbegun.made hwritable hstart hbegin with
    ⟨hcan, rfl, rfl⟩ | ⟨rfl, hcan, hhome, hmade, hbeside⟩
  · cases (bootstrap_blank text false).symm.trans hboot
    rw [hcan]
    exact ⟨haddress, hbegun.serving_plain hkept hwritable hsave hresolved⟩
  · cases (bootstrap_blank text true).symm.trans hboot
    have hsaved : d' = d₃.setContent d₁.next (.database (newImage true)) := by
      simpa [Connection.save] using hsave.symm
    have hshort : d₃.pathLength names ≤ longestPath := by
      rw [Disk.pathLength, hhome, hbegun.home]
      exact hbegun.short
    rw [hsaved] at hresolved ⊢
    rw [hcan]
    exact ⟨haddress, hmade.serving hbeside hkept hwritable (fun _ => hcan) hshort hresolved⟩

end Table

namespace TabularStore

open Table

/-! ## Stores whose databases are served -/

/-- The database of a store is served, and this is the table of its values. -/
def Holds (s : TabularStore) (table : SortedMap String String) (d : Disk) : Prop :=
  ∃ a names id image, Address.ofText? s.path = some a ∧ Serving a names id image d ∧
    image.rows = some table

variable {s : TabularStore} {d : Disk} {table : SortedMap String String} {α : Type}

theorem query_of_holds (h : s.Holds table d) (hopen : s.closed = false)
    (ask : SortedMap String String → Except StoreError α) : s.query d ask = (d, ask table) := by
  rcases h with ⟨a, names, id, image, haddress, hserving, hrows⟩
  simp only [query, connectOpen, hopen, hserving.connect haddress, rows, hrows, Bool.false_eq_true,
    if_false]
  rfl

theorem query_of_closed (hclosed : s.closed = true)
    (ask : SortedMap String String → Except StoreError α) :
    s.query d ask = (d, .error .closed) := by
  simp only [query, connectOpen, hclosed, if_true]

/-- A batch is carried out on the table that is in the file. -/
theorem perform_of_holds (h : s.Holds table d) (hopen : s.closed = false) (b : Batch) :
    ∃ d', s.perform d b = (d', .ok (b.readFrom table)) ∧ s.Holds (b.writeTo table) d' := by
  rcases h with ⟨a, names, id, image, haddress, hserving, hrows⟩
  have hsave := hserving.save { image with rows := some (b.writeTo table) }
  refine ⟨_, ?_, a, names, id, { image with rows := some (b.writeTo table) }, haddress,
    hserving.saved rfl ?_, rfl⟩
  · simp only [perform, connectOpen, hopen, hserving.connect haddress, rows, hrows, hsave,
      Connection.begin, Bool.false_eq_true, if_false]
  · intro hblank
    cases congrArg Image.rows hblank

theorem perform_of_closed (hclosed : s.closed = true) (b : Batch) :
    s.perform d b = (d, .error .closed) := by
  simp only [perform, connectOpen, hclosed, if_true]

theorem close_of_holds (h : s.Holds table d) :
    s.close d = ({ s with closed := true }, d, .ok ()) := by
  rcases h with ⟨a, names, id, image, haddress, hserving, -⟩
  unfold close
  split
  · rename_i hclosed
    rw [← hclosed]
  · simp only [hserving.connect haddress]

/-- A store that is opened for the first time has an empty table. -/
theorem holds_of_openAt {d' : Disk} {path : String} (hsound : d.IsSound)
    (hopen : openAt d path = (d', .ok s)) (hnew : IsNew d d' path) :
    s.closed = false ∧ s.Holds .empty d' := by
  rcases serving_of_openAt hsound hopen hnew with ⟨rfl, a, names, id, haddress, hserving⟩
  exact ⟨rfl, a, names, id, newImage a.canLog, haddress, hserving, rfl⟩

end TabularStore
end GuardedStore
