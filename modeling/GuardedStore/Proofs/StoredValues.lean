import GuardedStore.Proofs.AcceptedLogs
import GuardedStore.Proofs.PlainStores
import GuardedStore.Proofs.TableChanges

/-!
# StoredValues — where stores keep their values

A store of either kind keeps its values in a single file (`Store.Keeps`): a versioned store in a log
whose commits amount to them, a tabular one in a database that is served.  Whatever is requested of
an open store changes nothing but the contents of that file, so it goes on keeping values, and so
does every other store, whose values are in another file (`Keeps.elsewhere`).

Whoever opens the store again, before or after it was closed, finds the values in the file
(`Keeps.reopened`).
-/

namespace GuardedStore

open Versioned Log

/-! ## Files that are not looked at -/

namespace Disk

variable {d d' : Disk} {file : Nat}

/-- Nothing has been done, but one file may have been written. -/
def Written (file : Nat) (d d' : Disk) : Prop := d' = d ∨ ∃ c, d' = d.setContent file c

namespace Written

theorem within (h : Written file d d') : Within [] [file] d d' := by
  rcases h with rfl | ⟨c, rfl⟩
  · exact .refl
  · exact .write .refl (List.mem_singleton.2 rfl) c

theorem entries (h : Written file d d') : d'.entries = d.entries := by
  rcases h with rfl | ⟨c, rfl⟩
  · rfl
  · rfl

end Written

end Disk

/-! ## Versioned stores -/

namespace VersionedStore

variable {s s' : VersionedStore} {d d' : Disk} {path : String} {settings : StorageSettings}
  {values : Values} {b : Batch}

/-- The file of the log holds commits that amount to what is in memory. -/
structure Logged (s : VersionedStore) (d : Disk) : Prop where
  linked : d.Linked s.log.path s.log.file
  filed : ∃ commits, d.content s.log.file = .bytes (logBytes commits) ∧
    (∀ commit ∈ commits, commit.2.Fits) ∧
      (Committed.empty.applyAll commits).contents = s.committed.contents

theorem Synced.logged {commits : List (UInt64 × Change)} (h : s.Synced d commits) :
    s.Logged d := by
  refine ⟨h.holds.linked, commits, ?_, fun _ => h.holds.ascending.fits, h.agrees.contents⟩
  rw [h.holds.content, ByteArray.append_empty]

/-- A store that is opened on a fresh file keeps no values. -/
theorem logged_of_isFresh (hfresh : d.IsFresh path)
    (hopen : openAt d path settings = (d', .ok s)) : s.Logged d' ∧ s.log.path = path := by
  rcases synced_of_isFresh hfresh hopen with ⟨hsynced, hpath, -⟩
  exact ⟨hsynced.logged, hpath⟩

namespace Logged

theorem full (h : s.Logged d) : (d.bytes s.log.file).size ≠ 0 := by
  rcases h.filed with ⟨commits, hcontent, -⟩
  rw [Disk.bytes_eq hcontent]
  exact size_logBytes_ne_zero commits

/-- A commit that is logged is in the file. -/
theorem committing (h : s.Logged d) {change : Change} (hfits : change.Fits) :
    (s.committing change).Logged
      (d.append s.log.file (frameOf (s.committed.seq + 1, change)).encoded) := by
  rcases h.filed with ⟨commits, hcontent, hall, hamounts⟩
  refine ⟨h.linked.of_entries rfl, commits ++ [(s.committed.seq + 1, change)], ?_, ?_, ?_⟩
  · rw [logBytes_concat]
    exact Disk.content_append hcontent _
  · intro commit hmem
    rcases List.mem_append.1 hmem with hold | hnew
    · exact hall commit hold
    · rw [List.mem_singleton.1 hnew]
      exact hfits
  · rw [Committed.applyAll_append]
    show (((Committed.empty.applyAll commits)).apply (s.committed.seq + 1) change).contents =
      (s.committed.apply (s.committed.seq + 1) change).contents
    rw [Committed.contents_apply, Committed.contents_apply, hamounts]

/-- Whoever can open the log again finds the values. -/
theorem reopened (h : s.Logged d) (hpath : s.log.path = path)
    (hopen : openAt d path settings = (d', .ok s')) :
    s'.Logged d' ∧ s'.log.path = path ∧
      s'.committed.contents = s.committed.contents ∧ s'.committed.Sized ∧
        s'.log.poisoned = false := by
  rcases h.filed with ⟨commits, hcontent, hall, hamounts⟩
  subst hpath
  rcases log_of_openAt hopen with ⟨d₁, log, replay, hlog⟩
  have hascending : Ascending 0 commits := by
    have hbytes := Disk.bytes_eq hcontent
    rw [CommitLog.openAt_eq h.linked, hbytes] at hlog
    split at hlog
    · cases hlog
    · rename_i hrecover
      exact ascending_of_recover hall hrecover
  have hholds : s.log.Holds d commits .empty :=
    ⟨h.linked, by rw [hcontent, ByteArray.append_empty], hascending, torn_empty⟩
  cases hholds.openAt.symm.trans hlog
  rcases synced_of_openAt hholds.openAt hholds.opened hopen with
    ⟨commits', hsynced, hpath, hcommitted⟩
  refine ⟨hsynced.logged, hpath, ?_, hsynced.sized, hsynced.intact⟩
  rw [hcommitted]
  exact hamounts

/-- What is done elsewhere on the disk leaves the log. -/
theorem elsewhere (h : s.Logged d) (hkeep : d.KeepsDirectories d')
    (hspares : ∀ names, d.place? s.log.path = some names → Disk.Spares names d d') :
    s.Logged d' := by
  rcases h.linked.found with ⟨names, hplace, hentry⟩
  have hsame := hspares names hplace
  rcases h.filed with ⟨commits, hcontent, hall, hamounts⟩
  refine ⟨⟨h.linked.parents.keep hkeep, names, Disk.place?_keep hplace hkeep, ?_⟩, commits, ?_,
    hall, hamounts⟩
  · rw [hsame.entry, hentry]
  · rw [hsame.content _ hentry, hcontent]

end Logged
end VersionedStore

/-! ## Tabular stores -/

namespace Table

open Connection
open Disk (Spares)

variable {d d' : Disk} {names : List String} {text : String} {file id : Nat} {a : Address}
  {image : Image} {rows : SortedMap String String}

/-- The state of a database with a table of values. -/
def tableImage (logs : Bool) (rows : SortedMap String String) : Image :=
  { newImage logs with rows := some rows }

theorem tableImage_ne_blank (logs : Bool) (rows : SortedMap String String) :
    tableImage logs rows ≠ .blank := by
  intro hblank
  cases congrArg Image.rows hblank

/-- Such a database need not be brought to the newest version. -/
theorem bootstrap_tableImage (path : String) (logs : Bool) (rows : SortedMap String String) :
    (tableImage logs rows).bootstrap path = .ok (tableImage logs rows) := rfl

namespace Serving

/-- What another file holds does not matter, unless it was the empty one in the place of a log. -/
theorem beyond (h : Serving a names file image d) (hne : id ≠ file)
    (hfull : (d.bytes id).size ≠ 0) (c : Content) :
    Serving a names file image (d.setContent id c) := by
  refine ⟨h.kept, h.writable, ?_, h.short, h.entry, ?_, h.taken, h.canLog,
    h.beside.noJournal, h.beside.journalName, ?_, h.beside.logName, h.beside.noIndex⟩
  · rw [Disk.resolve?_setContent]
    exact h.resolved
  · rw [Disk.content_setContent_of_ne hne.symm]
    exact h.content
  · rcases h.beside.noLog with hnone | ⟨hlogs, id', hentry, hother, hempty⟩
    · exact .inl hnone
    · have hne' : id' ≠ id := by
        rintro rfl
        exact hfull hempty
      refine .inr ⟨hlogs, id', hentry, hother, ?_⟩
      rw [Disk.bytes, Disk.content_setContent_of_ne hne']
      exact hempty

/-- What is done elsewhere on the disk leaves a database that is served. -/
theorem elsewhere (h : Serving a names file image d) (hhome : d'.home = d.home)
    (hresolved : d'.resolve? a.path = some names)
    (hspares : ∀ near ∈ around names, Spares near d d') :
    Serving a names file image d' := by
  have hfile := hspares names (by simp [around, besides])
  have hjournal := hspares (journal names) (by simp [around, besides])
  have hlog := hspares (log names) (by simp [around, besides])
  have hindex := hspares (index names) (by simp [around, besides])
  refine ⟨h.kept, h.writable, hresolved, ?_, hfile.entry.trans h.entry, ?_, h.taken, h.canLog,
    hjournal.entry.trans h.beside.noJournal, h.beside.journalName, ?_, h.beside.logName, ?_⟩
  · rw [Disk.pathLength, hhome]
    exact h.short
  · rw [hfile.content _ h.entry]
    exact h.content
  · rcases h.beside.noLog with hnone | ⟨hlogs, id', hentry, hother, hempty⟩
    · exact .inl (hlog.entry.trans hnone)
    · refine .inr ⟨hlogs, id', hlog.entry.trans hentry, hother, ?_⟩
      rw [Disk.bytes, hlog.content _ hentry]
      exact hempty
  · intro hlogs
    exact hindex.entry.trans (h.beside.noIndex hlogs)

end Serving

/-- The database that a text tells to find has a table in a file, and can be opened again. -/
structure Tabled (text : String) (file : Nat) (rows : SortedMap String String) (d : Disk) :
    Prop where
  parents : d.HasParents text
  serving : ∃ a names, Address.ofText? text = some a ∧
    Serving a names file (tableImage a.canLog rows) d

/-- A database that is opened for the first time has an empty table. -/
theorem tabled_of_openAt {s : TabularStore} (hsound : d.IsSound)
    (hopen : TabularStore.openAt d text = (d', .ok s)) (hnew : IsNew d d' text) :
    s = ⟨text, false⟩ ∧ ∃ file, Tabled text file .empty d' := by
  rcases serving_of_openAt hsound hopen hnew with ⟨hs, a, names, file, haddress, hserving⟩
  rcases openAt_ok hopen with ⟨d₁, d₂, d₃, c, c', image, hparents, hconnect, hstart, -, -, hsave, -⟩
  have hsame := ((within_connect hconnect).sameDirectories.trans
    (within_startLog hstart).sameDirectories).trans (within_save hsave).sameDirectories
  exact ⟨hs, file, (Disk.hasParents_of_makeParents hparents).keep hsame.keeps, a, names, haddress,
    hserving⟩

namespace Tabled

theorem full (h : Tabled text file rows d) : (d.bytes file).size ≠ 0 := by
  rcases h.serving with ⟨a, names, -, hserving⟩
  rw [Disk.bytes, hserving.content, Content.raw, if_neg (tableImage_ne_blank _ _)]
  decide

theorem holds {s : TabularStore} (h : Tabled s.path file rows d) : s.Holds rows d := by
  rcases h.serving with ⟨a, names, haddress, hserving⟩
  exact ⟨a, names, file, _, haddress, hserving, rfl⟩

theorem contents (h : Tabled text file rows d) : Table.contents d text = rows := by
  rcases h.serving with ⟨a, names, haddress, hserving⟩
  exact hserving.contents haddress rfl

/-- Another table can be saved in the file. -/
theorem saved (h : Tabled text file rows d) (rows' : SortedMap String String) :
    ∃ a names, Address.ofText? text = some a ∧
      Serving a names file (tableImage a.canLog rows) d ∧
      Tabled text file rows' (d.setContent file (.database (tableImage a.canLog rows'))) := by
  rcases h.serving with ⟨a, names, haddress, hserving⟩
  exact ⟨a, names, haddress, hserving, h.parents.keep (.of_entries rfl), a, names, haddress,
    hserving.saved rfl (tableImage_ne_blank _ _)⟩

theorem perform {s : TabularStore} (h : Tabled s.path file rows d) (hopen : s.closed = false)
    (b : Batch) :
    ∃ c, s.perform d b = (d.setContent file c, .ok (b.readFrom rows)) ∧
      Tabled s.path file (b.writeTo rows) (d.setContent file c) := by
  rcases h.saved (b.writeTo rows) with ⟨a, names, haddress, hserving, htabled⟩
  have hrows : TabularStore.rows (tableImage a.canLog rows) = .ok rows := rfl
  have hsave := hserving.save { tableImage a.canLog rows with rows := some (b.writeTo rows) }
  refine ⟨_, ?_, htabled⟩
  simp only [TabularStore.perform, TabularStore.connectOpen, hopen, hserving.connect haddress,
    Connection.begin, hrows, hsave, Bool.false_eq_true, if_false]
  rfl

/-- Whoever opens the database again finds the table. -/
theorem reopened (h : Tabled text file rows d) :
    ∃ c, TabularStore.openAt d text = (d.setContent file c, .ok ⟨text, false⟩) ∧
      Tabled text file rows (d.setContent file c) := by
  rcases h.saved rows with ⟨a, names, haddress, hserving, htabled⟩
  have hparents := Disk.makeParents_of_hasParents h.parents
  have hlogs : (a.canLog && !(tableImage a.canLog rows).writeAhead) = false :=
    Bool.and_not_self a.canLog
  have hsave := hserving.save (tableImage a.canLog rows)
  refine ⟨_, ?_, htabled⟩
  simp only [TabularStore.openAt, hparents, hserving.connect haddress, startLog, hlogs,
    Bool.false_eq_true, if_false, Connection.begin, bootstrap_tableImage, hsave]

/-- What another file holds does not matter. -/
theorem beyond (h : Tabled text file rows d) (hne : id ≠ file) (hfull : (d.bytes id).size ≠ 0)
    (c : Content) : Tabled text file rows (d.setContent id c) := by
  rcases h.serving with ⟨a, names, haddress, hserving⟩
  exact ⟨h.parents.keep (.of_entries rfl), a, names, haddress, hserving.beyond hne hfull c⟩

/-- What is done elsewhere on the disk leaves the table. -/
theorem elsewhere (h : Tabled text file rows d) (hkeep : d.KeepsDirectories d')
    (hhome : d'.home = d.home)
    (hspares : ∀ a names, Address.ofText? text = some a → d.resolve? a.path = some names →
      d'.resolve? a.path = some names ∧
        ∀ near ∈ around names, Spares near d d') :
    Tabled text file rows d' := by
  rcases h.serving with ⟨a, names, haddress, hserving⟩
  rcases hspares a names haddress hserving.resolved with ⟨hresolved, hnear⟩
  exact ⟨h.parents.keep hkeep, a, names, haddress, hserving.elsewhere hhome hresolved hnear⟩

end Tabled
end Table

/-! ## Stores of either kind -/

namespace Store

variable {s t : Store} {d d' : Disk} {file file' : Nat} {values values' : Values} {b : Batch}
  {settings : StorageSettings}

/-- The kind and the path with which a store is opened. -/
def place : Store → StoreKind × String
  | versioned s => (.versioned, s.log.path)
  | tabular s => (.tabular, s.path)

/-- Whether a batch is not too large for a store. -/
def accepts : Store → Batch → Bool
  | versioned _, b => b.fits
  | tabular _, _ => true

/-- A store keeps some values in a file. -/
def Keeps (file : Nat) (values : Values) (d : Disk) : Store → Prop
  | versioned s => s.log.file = file ∧ s.Keeps ⟨values, s.closed⟩ ∧ s.Logged d
  | tabular s => Table.Tabled s.path file values.named d

/-- Whatever has been done on the disk, no directory was lost, and nothing was done to the files of
a store. -/
structure Spared (s : Store) (d d' : Disk) : Prop where
  directories : d.KeepsDirectories d'
  home : d'.home = d.home
  log : ∀ v names, s = versioned v → d.place? v.log.path = some names → Disk.Spares names d d'
  table : ∀ t a names, s = tabular t → Table.Address.ofText? t.path = some a →
    d.resolve? a.path = some names → d'.resolve? a.path = some names ∧
      ∀ near ∈ Table.around names, Disk.Spares near d d'

/-- What a request comes to: the store keeps other values in its file, and nothing else was done. -/
structure Requested (s : Store) (file : Nat) (values : Values) (d : Disk) (s' : Store) (d' : Disk) :
    Prop where
  keeps : s'.Keeps file values d'
  place : s'.place = s.place
  written : Disk.Written file d d'

namespace Keeps

theorem full (h : s.Keeps file values d) : (d.bytes file).size ≠ 0 := by
  cases s with
  | versioned s =>
      rcases h with ⟨rfl, -, hlogged⟩
      exact hlogged.full
  | tabular s => exact Table.Tabled.full h

/-- What is written to another file does not matter. -/
theorem beyond (h : s.Keeps file values d) (hne : file' ≠ file)
    (hfull : (d.bytes file').size ≠ 0) (hwritten : Disk.Written file' d d') :
    s.Keeps file values d' := by
  rcases hwritten with rfl | ⟨c, rfl⟩
  · exact h
  · cases s with
    | versioned s =>
        rcases h with ⟨rfl, hkeeps, hlogged⟩
        rcases hlogged.filed with ⟨commits, hcontent, hfiled⟩
        refine ⟨rfl, hkeeps, hlogged.linked.of_entries rfl, commits, ?_, hfiled⟩
        rw [Disk.content_setContent_of_ne hne.symm]
        exact hcontent
    | tabular s => exact Table.Tabled.beyond h hne hfull c

/-- What is done elsewhere on the disk does not matter. -/
theorem elsewhere (h : s.Keeps file values d) (hspared : s.Spared d d') :
    s.Keeps file values d' := by
  cases s with
  | versioned s =>
      rcases h with ⟨hfile, hkeeps, hlogged⟩
      have hlogged' := hlogged.elsewhere hspared.directories (fun names => hspared.log s names rfl)
      exact ⟨hfile, hkeeps, hlogged'⟩
  | tabular s =>
      exact Table.Tabled.elsewhere h hspared.directories hspared.home
        (fun a names => hspared.table s a names rfl)

/-- The values are stored under the texts of their keys. -/
theorem contents (h : s.Keeps file values d) : s.contents d = values.named := by
  cases s with
  | versioned s => exact h.2.1.contents
  | tabular s => exact Table.Tabled.contents h

theorem requested (h : s.Keeps file values d) : s.Requested file values d s d :=
  ⟨h, rfl, .inl rfl⟩

/-! ### Requests -/

theorem all (h : s.Keeps file values d) (hopen : s.isClosed = false) :
    s.all d = (d, .ok values) := by
  cases s with
  | versioned s =>
      rcases h with ⟨-, hkeeps, -⟩
      have hstored : s.committed.view.snapshot.toList.map (fun e => (e.1, e.2.value)) =
          values.named.toList := congrArg SortedMap.toList hkeeps.contents
      simp only [Store.all, VersionedStore.all, VersionedStore.begin,
        VersionedStore.ensureOpen_of_open hopen, hstored, readStored_named]
  | tabular s =>
      simp only [Store.all, TabularStore.all,
        TabularStore.query_of_holds (Table.Tabled.holds h) hopen, readStored_named]

/-- Queries leave the disk as it is. -/
theorem ask (h : s.Keeps file values d) (q : Query) : (s.ask d q).1 = d := by
  cases s with
  | versioned s => cases q <;> rfl
  | tabular s =>
      rw [TabularStore.ask_eq_query]
      cases hclosed : s.closed with
      | true => rw [TabularStore.query_of_closed hclosed]
      | false => rw [TabularStore.query_of_holds (Table.Tabled.holds h) hclosed]

theorem close (h : s.Keeps file values d) :
    ∃ s', s.close d = (s', d, .ok ()) ∧ s'.Keeps file values d ∧ s'.place = s.place := by
  cases s with
  | versioned s =>
      rcases h with ⟨hfile, hkeeps, hlogged⟩
      exact ⟨_, rfl, ⟨hfile, hkeeps.close, hlogged.linked, hlogged.filed⟩, rfl⟩
  | tabular s =>
      refine ⟨.tabular { s with closed := true }, ?_, h, rfl⟩
      simp only [Store.close, TabularStore.close_of_holds (Table.Tabled.holds h)]

/-- A batch that is accepted is carried out. -/
theorem perform (h : s.Keeps file values d) (hopen : s.isClosed = false)
    (haccepts : s.accepts b = true) :
    ∃ s' d', s.perform d b = (s', d', .ok (b.select values)) ∧ s'.isClosed = false ∧
      s.Requested file (b.applyTo values) d s' d' := by
  cases s with
  | versioned s =>
      rcases h with ⟨rfl, hkeeps, hlogged⟩
      simp only [Store.perform]
      cases hwrite : b.isReadOnly with
      | true =>
          rw [VersionedStore.perform_readOnly hopen hkeeps.attempts hwrite, hkeeps.valuesOf b,
            b.applyTo_of_isReadOnly hwrite]
          exact ⟨_, _, rfl, hopen, ⟨rfl, hkeeps, hlogged⟩, rfl, .inl rfl⟩
      | false =>
          have hfits : b.change.Fits := by
            simpa [accepts, Batch.fits, hwrite] using haccepts
          rw [VersionedStore.perform_fits hopen hkeeps.attempts hwrite hkeeps.intact hfits,
            hkeeps.valuesOf b]
          exact ⟨_, _, rfl, hopen, ⟨rfl, hkeeps.committing b, hlogged.committing hfits⟩, rfl,
            .inr ⟨_, rfl⟩⟩
  | tabular s =>
      rcases Table.Tabled.perform h hopen b with ⟨c, hperform, htabled⟩
      rw [Batch.writeTo_named] at htabled
      rw [Batch.readFrom_named] at hperform
      simp only [Store.perform, hperform]
      exact ⟨_, _, rfl, hopen, htabled, rfl, .inr ⟨c, rfl⟩⟩

/-- A batch that is not accepted is refused, and changes nothing. -/
theorem perform_refused (h : s.Keeps file values d) (hopen : s.isClosed = false)
    (hrefused : s.accepts b = false) :
    ∃ seq, s.perform d b = (s, d, .error (.storage (.largeCommit seq))) := by
  cases s with
  | versioned s =>
      rcases h with ⟨-, hkeeps, -⟩
      refine ⟨s.committed.seq + 1, ?_⟩
      simp only [Store.perform, hkeeps.perform_large hopen hrefused]
  | tabular s => cases hrefused

theorem perform_of_closed (h : s.Keeps file values d) (hclosed : s.isClosed = true) (b : Batch) :
    s.perform d b = (s, d, .error .closed) := by
  cases s with
  | versioned s =>
      simp only [Store.perform, VersionedStore.perform_closed hclosed h.2.1.attempts]
  | tabular s => simp only [Store.perform, TabularStore.perform_of_closed hclosed]

/-- Whatever is requested of a store, it goes on keeping values in its file. -/
theorem carryOut (h : s.Keeps file values d) (c : StoreCall) :
    ∃ values', s.Requested file values' d (s.carryOut d c).1 (s.carryOut d c).2.1 := by
  cases c with
  | query q =>
      have hsame := h.ask q
      refine ⟨values, ?_, rfl, .inl hsame⟩
      simp only [Store.carryOut, hsame]
      exact h
  | close =>
      rcases h.close with ⟨s', hclose, hkeeps, hplace⟩
      simp only [Store.carryOut, hclose]
      exact ⟨values, hkeeps, hplace, .inl rfl⟩
  | perform b =>
      simp only [Store.carryOut]
      cases hclosed : s.isClosed with
      | true =>
          rw [h.perform_of_closed hclosed b]
          exact ⟨values, h.requested⟩
      | false =>
          cases haccepts : s.accepts b with
          | false =>
              rcases h.perform_refused hclosed haccepts with ⟨seq, hperform⟩
              rw [hperform]
              exact ⟨values, h.requested⟩
          | true =>
              rcases h.perform hclosed haccepts with ⟨s', d', hperform, -, hrequested⟩
              rw [hperform]
              exact ⟨_, hrequested⟩

theorem reply (h : s.Keeps file values d) (r : StoreRequest) :
    ∃ values', s.Requested file values' d (s.reply d r).1 (s.reply d r).2.1 := by
  cases r with
  | isClosed => exact ⟨values, h.requested⟩
  | call c => exact h.carryOut c

end Keeps

/-! ### Opening -/

/-- A store that is opened at a place where there was none keeps no values. -/
theorem keeps_of_fresh {path : String} (hfresh : d.IsFresh path)
    (hopen : openAt d .versioned path settings = (d', .ok s)) :
    ∃ file, s.Keeps file .empty d' ∧ s.place = (.versioned, path) ∧ s.isClosed = false := by
  rcases versioned_of_openAt hopen with ⟨v, rfl, hresult⟩
  rcases VersionedStore.logged_of_isFresh hfresh hresult with ⟨hlogged, hpath⟩
  have hkeeps := VersionedStore.keeps_of_isFresh hfresh hresult
  have hopened := (VersionedStore.ready_of_openAt hresult).1
  refine ⟨v.log.file, ⟨rfl, ?_, hlogged⟩, by rw [place, hpath], hopened⟩
  rw [hopened]
  exact hkeeps

theorem keeps_of_new {path : String} (hsound : d.IsSound)
    (hopen : openAt d .tabular path settings = (d', .ok s)) (hnew : Table.IsNew d d' path) :
    ∃ file, s.Keeps file .empty d' ∧ s.place = (.tabular, path) ∧ s.isClosed = false := by
  rcases tabular_of_openAt hopen with ⟨t, rfl, hresult⟩
  rcases Table.tabled_of_openAt hsound hresult hnew with ⟨rfl, file, htabled⟩
  exact ⟨file, htabled, rfl, rfl⟩

/-- Whoever opens a store again finds its values. -/
theorem Keeps.reopened (h : s.Keeps file values d)
    (hopen : openAt d s.place.1 s.place.2 settings = (d', .ok t)) :
    ∃ file', t.Keeps file' values d' ∧ t.place = s.place ∧ t.isClosed = false := by
  cases s with
  | versioned s =>
      rcases h with ⟨-, hkeeps, hlogged⟩
      rcases versioned_of_openAt hopen with ⟨v, rfl, hresult⟩
      rcases hlogged.reopened rfl hresult with ⟨hlogged', hpath, hsame, hsized, hintact⟩
      rcases VersionedStore.ready_of_openAt hresult with ⟨hopened, hattempts⟩
      exact ⟨v.log.file, ⟨rfl, ⟨rfl, hsame.trans hkeeps.contents, hsized, hintact, hattempts⟩,
        hlogged'⟩, by rw [place, place, hpath], hopened⟩
  | tabular s =>
      rcases Table.Tabled.reopened h with ⟨c, hresult, htabled⟩
      simp only [openAt, place, hresult] at hopen
      cases hopen
      exact ⟨file, htabled, rfl, rfl⟩

end Store
end GuardedStore
