import GuardedStore.CommandLine
import GuardedStore.Proofs.SeparatePlaces

/-!
# Copies — what copying one store to another comes to

A store that is in use keeps values in a file of its own, whatever has been done with it and with
the disk around it (`Store.Reached`).  They are stored under the texts of their keys, no two of which
spell the same key, so all that is stored is told (`Offers`).  To copy such a store to another one
puts what is stored in it over what is stored in the other (`Overlaid`), in one batch, so either all
of it is copied or nothing is changed (`Keeps.copy`); to copy again changes nothing any more.

A store that is opened where there was none has nothing stored, so it ends with exactly what is
copied, and so does a whole chain of such stores, each in a place that is separate from the one
before (`Copies`), or of runs of the program that copy the files of stores (`Migrations`).
-/

namespace GuardedStore

open Versioned Log

namespace VersionedStore

variable {s : VersionedStore} {d d' : Disk} {path : String} {settings : StorageSettings}

/-! ## Young logs -/

/-- A log with a single commit at most, which is nothing to be compacted. -/
def Young (s : VersionedStore) (d : Disk) : Prop :=
  ∃ commits, s.Synced d commits ∧ commits.length ≤ 1

namespace Young

theorem close (h : s.Young d) : s.close.Young d := by
  rcases h with ⟨commits, hsynced, hshort⟩
  exact ⟨commits, ⟨hsynced.holds, hsynced.intact, hsynced.frames, hsynced.agrees, hsynced.sized⟩,
    hshort⟩

theorem reopens (h : s.Young d) (settings : StorageSettings) :
    ∃ t d', openAt d s.log.path settings = (d', .ok t) := by
  rcases h with ⟨commits, hsynced, hshort⟩
  rcases hsynced.openAt with ⟨d₁, log, replay, hlog, hcommits, hopened, -⟩
  have hplain : needsCompaction log (Committed.empty.applyAll replay.commits) = false := by
    have hfew : ¬ compactFrom ≤ log.frames := by
      rw [hopened]
      show ¬ 1024 ≤ commits.length
      omega
    simp [needsCompaction, hfew]
  exact ⟨_, _, openAt_plain hlog settings hplain⟩

end Young

/-- The first batch adds one commit, if any. -/
theorem young_of_isFresh (hfresh : d.IsFresh path) (hopen : openAt d path settings = (d', .ok s))
    (b : Batch) : (s.perform d' b).1.Young (s.perform d' b).2.1 := by
  rcases synced_of_isFresh hfresh hopen with ⟨hsynced, -, hempty⟩
  rcases ready_of_openAt hopen with ⟨hopened, hattempts⟩
  cases hwrite : b.isReadOnly with
  | true =>
      rw [perform_readOnly hopened hattempts hwrite]
      exact ⟨[], hsynced, Nat.zero_le 1⟩
  | false =>
      by_cases hfits : b.change.Fits
      · rw [perform_fits hopened hattempts hwrite hsynced.intact hfits]
        have hroom : s.committed.seq.toNat + 1 < 2 ^ 64 := by
          rw [hempty]
          decide
        exact ⟨_, hsynced.committing hroom hfits, Nat.le_refl 1⟩
      · rw [perform_large hopened hattempts hwrite hsynced.intact hfits]
        exact ⟨[], hsynced, Nat.zero_le 1⟩

end VersionedStore

/-! ## Values over others -/

/-- Some values over others. -/
def Values.covering (values old : Values) : Values := old.insertAll values.toList

/-- The batch that puts some values. -/
def Batch.putting (values : Values) : Batch := { empty with update := values }

theorem Batch.applyTo_putting (values old : Values) :
    (putting values).applyTo old = values.covering old := rfl

namespace Values

theorem get?_covering (values old : Values) (key : Key) :
    (values.covering old).get? key = (values.get? key).or (old.get? key) := by
  exact Batch.get?_applyTo (.putting values) old key

/-- The same under the names of the keys. -/
theorem get?_named_covering (values old : Values) (name : String) :
    (values.covering old).named.get? name =
      (values.named.get? name).or (old.named.get? name) := by
  rw [covering, ← SortedMap.insertAll_named, ← SortedMap.toList_named, SortedMap.get?_insertAll,
    SortedMap.lastValue?_toList]
  cases values.named.get? name <;> rfl

theorem covering_empty (values : Values) : values.covering .empty = values :=
  SortedMap.insertAll_empty_toList values

/-- To put values over others again changes nothing. -/
theorem covering_covering (values old : Values) :
    values.covering (values.covering old) = values.covering old := by
  refine SortedMap.ext ?_
  intro key
  rw [get?_covering, get?_covering]
  cases values.get? key <;> rfl

end Values

namespace Store

variable {s t u : Store} {d d' d₁ d₂ : Disk} {file file' : Nat} {values old : Values}
  {kind : StoreKind} {path : String} {settings : StorageSettings}

/-! ## Stores in use -/

/-- A store of some kind is opened at a path where there was none. -/
inductive OpensFresh (settings : StorageSettings) (d : Disk) :
    StoreKind → String → Store → Disk → Prop where
  | versioned {path : String} {s : Store} {d' : Disk} (hfresh : d.IsFresh path)
      (hopen : openAt d .versioned path settings = (d', .ok s)) :
      OpensFresh settings d .versioned path s d'
  | tabular {path : String} {s : Store} {d' : Disk}
      (hopen : openAt d .tabular path settings = (d', .ok s)) (hnew : Table.IsNew d d' path) :
      OpensFresh settings d .tabular path s d'

/-- A store that is in use: it has been opened where there was none, and after that it was requested
to do something, it was opened again, or something else was done on the disk. -/
inductive Reached : Store → Disk → Prop where
  | opened {settings : StorageSettings} {d d' : Disk} {kind : StoreKind} {path : String}
      {s : Store} (htidy : d.IsTidy) (hopens : OpensFresh settings d kind path s d') : Reached s d'
  | request {s : Store} {d : Disk} (h : Reached s d) (r : StoreRequest) :
      Reached (s.reply d r).1 (s.reply d r).2.1
  | reopened {settings : StorageSettings} {s t : Store} {d d' : Disk} (h : Reached s d)
      (hopen : openAt d s.place.1 s.place.2 settings = (d', .ok t)) : Reached t d'
  | elsewhere {s : Store} {d d' : Disk} (h : Reached s d) (hspared : s.Spared d d')
      (htidy : d'.IsTidy) : Reached s d'

theorem OpensFresh.openAt_eq (h : OpensFresh settings d kind path s d') :
    openAt d kind path settings = (d', .ok s) := by
  cases h with
  | versioned hfresh hopen => exact hopen
  | tabular hopen hnew => exact hopen

theorem OpensFresh.keeps (h : OpensFresh settings d kind path s d') (hsound : d.IsSound) :
    ∃ file, s.Keeps file .empty d' ∧ s.place = (kind, path) ∧ s.isClosed = false := by
  cases h with
  | versioned hfresh hopen => exact keeps_of_fresh hfresh hopen
  | tabular hopen hnew => exact keeps_of_new hsound hopen hnew

/-- A store that is in use keeps values in a file, on a tidy disk. -/
theorem Reached.keeps (h : Reached s d) : d.IsTidy ∧ ∃ file values, s.Keeps file values d := by
  induction h with
  | opened htidy hopens =>
      rcases hopens.keeps htidy.sound with ⟨file, hkeeps, -⟩
      exact ⟨isTidy_of_openAt htidy hopens.openAt_eq, file, .empty, hkeeps⟩
  | request _ r ih =>
      rcases ih with ⟨htidy, file, values, hkeeps⟩
      rcases hkeeps.reply r with ⟨values', hrequested⟩
      exact ⟨hrequested.written.within.isTidy htidy, file, values', hrequested.keeps⟩
  | reopened _ hopen ih =>
      rcases ih with ⟨htidy, file, values, hkeeps⟩
      rcases hkeeps.reopened hopen with ⟨file', hkeeps', -⟩
      exact ⟨isTidy_of_openAt htidy hopen, file', values, hkeeps'⟩
  | elsewhere _ hspared htidy ih =>
      rcases ih with ⟨-, file, values, hkeeps⟩
      exact ⟨htidy, file, values, hkeeps.elsewhere hspared⟩

namespace Reached

/-- A store that is in use goes on when another one is opened in a separate place, -/
theorem opening (h : Reached s d) (hopen : openAt d kind path settings = (d', .ok t))
    (hseparate : Separate s.place (kind, path)) : Reached s d' :=
  .elsewhere h (spared_of_openAt h.keeps.1 hopen hseparate) (isTidy_of_openAt h.keeps.1 hopen)

/-- and when a store in a separate place is requested to do something. -/
theorem beside (h : Reached s d) (ht : Reached t d) (hseparate : Separate s.place t.place)
    (r : StoreRequest) : Reached s (t.reply d r).2.1 := by
  rcases ht.keeps with ⟨htidy, file, values, hkeeps⟩
  rcases hkeeps.reply r with ⟨values', hrequested⟩
  exact .elsewhere h (hkeeps.spared_of_written htidy hseparate hrequested.written)
    (hrequested.written.within.isTidy htidy)

end Reached

/-! ## Files of stores -/

/-- The file in which a store keeps its values, if there is one. -/
def file? (d : Disk) : Store → Option Nat
  | versioned s => some s.log.file
  | tabular s => do
    let a ← Table.Address.ofText? s.path
    let names ← d.resolve? a.path
    match d.entryAt? names with
    | some (.file id) => some id
    | _ => none

/-- Two stores do not keep their values in the same file. -/
def Distinct (s t : Store) (d : Disk) : Prop := s.file? d ≠ t.file? d

theorem Keeps.file?_eq (h : s.Keeps file values d) : s.file? d = some file := by
  cases s with
  | versioned s => exact congrArg some h.1
  | tabular s =>
      rcases Table.Tabled.serving h with ⟨a, names, haddress, hserving⟩
      simp only [file?, haddress, hserving.resolved, hserving.entry, Option.bind_eq_bind,
        Option.bind_some]

/-- Stores that are in use in separate places are distinct. -/
theorem distinct_of_separate (hs : Reached s d) (ht : Reached t d)
    (hseparate : Separate s.place t.place) : s.Distinct t d := by
  rcases hs.keeps with ⟨htidy, file, values, hkeeps⟩
  rcases ht.keeps with ⟨-, file', old, hkeeps'⟩
  rw [Distinct, hkeeps.file?_eq, hkeeps'.file?_eq]
  intro hsame
  exact hkeeps.file_ne hkeeps' htidy hseparate (Option.some.inj hsame)

theorem Distinct.ne (h : s.Distinct t d) (hs : s.Keeps file values d)
    (ht : t.Keeps file' old d) : file ≠ file' := by
  rintro rfl
  exact h (hs.file?_eq.trans ht.file?_eq.symm)

/-! ## What stores offer -/

/-- What an open store offers: it keeps some values, which are stored under the texts of their keys,
and tells them all. -/
structure Offers (s : Store) (values : Values) (d : Disk) : Prop where
  opened : s.isClosed = false
  kept : ∃ file, s.Keeps file values d
  contents : s.contents d = values.named
  -- each stored name is the text of the key that it spells, so no two are read as the same key
  spelled : ∀ name ∈ (s.contents d).keys, ∃ key, Key.create name = .ok key ∧ key.text = name
  apart : ∀ name ∈ (s.contents d).keys, ∀ other ∈ (s.contents d).keys,
    Key.create name = Key.create other → name = other
  all : s.all d = (d, .ok values)

theorem Keeps.offers (h : s.Keeps file values d) (hopen : s.isClosed = false) :
    s.Offers values d := by
  have hcontents := h.contents
  refine ⟨hopen, ⟨file, h⟩, hcontents, ?_, ?_, h.all hopen⟩
  · intro name hname
    rw [hcontents] at hname
    exact SortedMap.create_of_mem_named hname
  · intro name hname other hother
    rw [hcontents] at hname hother
    exact SortedMap.eq_of_mem_named hname hother

theorem Offers.size (h : s.Offers values d) : (s.contents d).size = values.size := by
  rw [h.contents, SortedMap.size_named]

/-! ## Copying -/

theorem copy_eq (t : Store) (hall : s.all d = (d, .ok values)) :
    s.copy t d = ((t.perform d (.putting values)).1, (t.perform d (.putting values)).2.1,
      (t.perform d (.putting values)).2.2.map (fun _ => values.size)) := by
  simp only [copy, hall]
  rfl

namespace Keeps

/-- If the other store accepts them, the values are put over those that it has. -/
theorem copy (hs : s.Keeps file values d) (hopen : s.isClosed = false)
    (ht : t.Keeps file' old d) (hopen' : t.isClosed = false) (hne : file ≠ file')
    (haccepts : t.accepts (.putting values) = true) :
    ∃ t' d', s.copy t d = (t', d', .ok values.size) ∧ s.Keeps file values d' ∧
      t'.isClosed = false ∧ t.Requested file' (values.covering old) d t' d' := by
  rcases ht.perform hopen' haccepts with ⟨t', d', hperform, hopened, hrequested⟩
  rw [Batch.applyTo_putting] at hrequested
  refine ⟨t', d', ?_, hs.beyond hne.symm ht.full hrequested.written, hopened, hrequested⟩
  rw [copy_eq t (hs.all hopen), hperform]
  rfl

/-- If it does not, nothing is changed. -/
theorem copy_refused (hs : s.Keeps file values d) (hopen : s.isClosed = false)
    (ht : t.Keeps file' old d) (hopen' : t.isClosed = false)
    (hrefused : t.accepts (.putting values) = false) :
    ∃ e, s.copy t d = (t, d, .error e) := by
  rcases ht.perform_refused hopen' hrefused with ⟨seq, hperform⟩
  refine ⟨.storage (.largeCommit seq), ?_⟩
  rw [copy_eq t (hs.all hopen), hperform]
  rfl

end Keeps

theorem accepts_of_place (h : s.place = t.place) (b : Batch) : s.accepts b = t.accepts b := by
  have hkind := congrArg Prod.fst h
  cases s with
  | versioned s =>
      cases t with
      | versioned t => rfl
      | tabular t => cases hkind
  | tabular s =>
      cases t with
      | versioned t => cases hkind
      | tabular t => rfl

/-! ## Stores that have just been filled -/

/-- Whether opening a store anew cannot fail. -/
def Young (d : Disk) : Store → Prop
  | versioned s => s.Young d
  | tabular _ => True

theorem Keeps.reopens (h : s.Keeps file values d) (hyoung : s.Young d)
    (settings : StorageSettings) :
    ∃ t d', openAt d s.place.1 s.place.2 settings = (d', .ok t) := by
  cases s with
  | versioned s =>
      rcases VersionedStore.Young.reopens hyoung settings with ⟨t, d', hopen⟩
      simp only [openAt, place, hopen]
      exact ⟨_, _, rfl⟩
  | tabular s =>
      rcases Table.Tabled.reopened h with ⟨c, hopen, -⟩
      simp only [openAt, place, hopen]
      exact ⟨_, _, rfl⟩

theorem OpensFresh.young (h : OpensFresh settings d kind path s d') (b : Batch) :
    (s.perform d' b).1.Young (s.perform d' b).2.1 := by
  cases h with
  | versioned hfresh hopen =>
      rcases versioned_of_openAt hopen with ⟨v, rfl, hresult⟩
      exact VersionedStore.young_of_isFresh hfresh hresult b
  | tabular hopen hnew =>
      rcases tabular_of_openAt hopen with ⟨t, rfl, -⟩
      trivial

theorem Young.close (h : s.Young d) (d' : Disk) : (s.close d').1.Young d := by
  cases s with
  | versioned s => exact VersionedStore.Young.close h
  | tabular s => trivial

/-! ## Chains of stores -/

/-- One store is copied to the next, which is opened where there was none, in a place that is
separate from that of the store before, and accepts all values; and so on.  With what each copy
tells. -/
inductive Copies (values : Values) (s : Store) (d : Disk) :
    List (Except StoreError Nat) → Store → Disk → Prop where
  | nil : Copies values s d [] s d
  | cons {results : List (Except StoreError Nat)} {t u : Store} {d₁ d₂ : Disk} {kind : StoreKind}
      {path : String} {settings : StorageSettings} (h : Copies values s d results t d₁)
      (hopens : OpensFresh settings d₁ kind path u d₂) (hseparate : Separate t.place (kind, path))
      (haccepts : u.accepts (.putting values) = true) :
      Copies values s d (results ++ [(t.copy u d₂).2.2]) (t.copy u d₂).1 (t.copy u d₂).2.1

/-- What is left when some values have been copied to a store in a place where there was none. -/
structure Filled (values : Values) (place : StoreKind × String) (t : Store) (d : Disk) : Prop where
  tidy : d.IsTidy
  keeps : ∃ file, t.Keeps file values d
  place : t.place = place
  opened : t.isClosed = false
  young : t.Young d

/-- To copy a store to one that is opened where there was none gives it the same values. -/
theorem Keeps.copy_fresh (hs : s.Keeps file values d) (hopen : s.isClosed = false)
    (htidy : d.IsTidy) (hopens : OpensFresh settings d kind path t d')
    (hseparate : Separate s.place (kind, path)) (haccepts : t.accepts (.putting values) = true) :
    ∃ t' d₂, s.copy t d' = (t', d₂, .ok values.size) ∧ s.Keeps file values d₂ ∧
      Filled values (kind, path) t' d₂ := by
  rcases hopens.keeps htidy.sound with ⟨file', ht, hplace, hopen'⟩
  have htidy' := isTidy_of_openAt htidy hopens.openAt_eq
  have hs' := hs.elsewhere (spared_of_openAt htidy hopens.openAt_eq hseparate)
  have hne := hs'.file_ne ht htidy' (by rwa [hplace])
  rcases hs'.copy hopen ht hopen' hne haccepts with ⟨t', d₂, hcopy, hs₂, hopen₂, hrequested⟩
  have hyoung := hopens.young (.putting values)
  have hperformed := (copy_eq t (hs'.all hopen)).symm.trans hcopy
  rw [(Prod.mk.inj hperformed).1, (Prod.mk.inj (Prod.mk.inj hperformed).2).1] at hyoung
  rw [Values.covering_empty] at hrequested
  exact ⟨t', d₂, hcopy, hs₂, hrequested.written.within.isTidy htidy', ⟨file', hrequested.keeps⟩,
    hrequested.place.trans hplace, hopen₂, hyoung⟩

theorem Copies.keeps {results : List (Except StoreError Nat)}
    (h : Copies values s d results t d') (hs : s.Keeps file values d)
    (hopen : s.isClosed = false) (htidy : d.IsTidy) :
    (∀ r ∈ results, r = .ok values.size) ∧
      ∃ file', t.Keeps file' values d' ∧ t.isClosed = false ∧ d'.IsTidy := by
  induction h with
  | nil => exact ⟨nofun, file, hs, hopen, htidy⟩
  | cons _ hopens hseparate haccepts ih =>
      rcases ih with ⟨hresults, file₁, ht, htopen, htidy₁⟩
      rcases ht.copy_fresh htopen htidy₁ hopens hseparate haccepts with
        ⟨u', d', hcopy, -, hfilled⟩
      rcases hfilled.keeps with ⟨file₂, hu'⟩
      rw [hcopy]
      exact ⟨List.forall_mem_append.2 ⟨hresults, List.forall_mem_singleton.2 rfl⟩, file₂, hu',
        hfilled.opened, hfilled.tidy⟩

/-! ## Runs of the program -/

open CommandLine (migrateStores)
open VersionedStore (firstKey secondKey isFresh_empty)

/-- What the program prints when it has copied a number of values. -/
def copiedText (n : Nat) : String := s!"ok\t{Decimal.text n}\n"

/-- Several runs of the program, each of which copies the store of the run before to a store that is
opened where there was none, in a separate place, and accepts the values; with what they print. -/
inductive Migrations (values : Values) (place : StoreKind × String) (d : Disk) :
    List CommandLine.Result → StoreKind × String → Disk → Prop where
  | nil : Migrations values place d [] place d
  | cons {results : List CommandLine.Result} {last : StoreKind × String} {d₁ d₂ d₃ : Disk}
      {s t : Store} {kind : StoreKind} {path : String}
      (h : Migrations values place d results last d₁)
      (hopen : openAt d₁ last.1 last.2 .standard = (d₂, .ok s))
      (hopens : OpensFresh .standard d₂ kind path t d₃) (hseparate : Separate last (kind, path))
      (haccepts : t.accepts (.putting values) = true) :
      Migrations values place d (results ++ [(migrateStores d₁ last.1 kind last.2 path).2])
        (kind, path) (migrateStores d₁ last.1 kind last.2 path).1

/-- At a place on a tidy disk there is a store with some values, and it can be opened. -/
structure Held (values : Values) (place : StoreKind × String) (d : Disk) : Prop where
  tidy : d.IsTidy
  keeps : ∃ (s : Store) (file : Nat), s.Keeps file values d ∧ s.place = place
  opens : ∃ t d', openAt d place.1 place.2 .standard = (d', .ok t)

/-- One run of the program copies all values. -/
theorem held_of_migrate {place : StoreKind × String} {d₃ : Disk} (h : Held values place d₁)
    (hopen : openAt d₁ place.1 place.2 .standard = (d₂, .ok s))
    (hopens : OpensFresh .standard d₂ kind path t d₃) (hseparate : Separate place (kind, path))
    (haccepts : t.accepts (.putting values) = true) :
    (migrateStores d₁ place.1 kind place.2 path).2 = .ok (copiedText values.size) ∧
      Held values (kind, path) (migrateStores d₁ place.1 kind place.2 path).1 := by
  rcases h with ⟨htidy, ⟨s₀, file₀, hkeeps₀, rfl⟩, -⟩
  rcases hkeeps₀.reopened hopen with ⟨file, hkeeps, hplace, hopened⟩
  rcases hkeeps.copy_fresh hopened (isTidy_of_openAt htidy hopen) hopens (by rwa [hplace]) haccepts
    with ⟨t', d', hcopy, hs', hfilled⟩
  rcases hs'.close with ⟨s'', hclose, -⟩
  rcases hfilled.keeps with ⟨file', ht'⟩
  rcases ht'.close with ⟨t'', hclose', hkeeps'', hplace''⟩
  have hmigrate : migrateStores d₁ s₀.place.1 kind s₀.place.2 path =
      (d', .ok (copiedText values.size)) := by
    simp only [migrateStores, hopen, hopens.openAt_eq, hcopy, hclose, hclose', copiedText]
  rw [hmigrate]
  have hsame : t''.place = (kind, path) := hplace''.trans hfilled.place
  -- both stores are closed, and the one that was filled can be opened again
  have hyoung := hfilled.young.close d'
  rw [hclose'] at hyoung
  have hreopens := hkeeps''.reopens hyoung .standard
  rw [hsame] at hreopens
  exact ⟨rfl, hfilled.tidy, ⟨t'', file', hkeeps'', hsame⟩, hreopens⟩

theorem Migrations.held {results : List CommandLine.Result} {place last : StoreKind × String}
    (h : Migrations values place d results last d') (hheld : Held values place d) :
    (∀ r ∈ results, r = .ok (copiedText values.size)) ∧ Held values last d' := by
  induction h with
  | nil => exact ⟨nofun, hheld⟩
  | cons _ hopen hopens hseparate haccepts ih =>
      rcases ih with ⟨hresults, hlast⟩
      rcases held_of_migrate hlast hopen hopens hseparate haccepts with ⟨hresult, hnext⟩
      exact ⟨List.forall_mem_append.2 ⟨hresults, List.forall_mem_singleton.2 hresult⟩, hnext⟩

/-- Whoever opens the store is offered the values. -/
theorem Held.opened {place : StoreKind × String} (h : Held values place d) :
    ∃ u d', openAt d place.1 place.2 .standard = (d', .ok u) ∧ u.Offers values d' := by
  rcases h with ⟨-, ⟨s, file, hkeeps, rfl⟩, u, d', hopen⟩
  rcases hkeeps.reopened hopen with ⟨file', hkeeps', -, hopened⟩
  exact ⟨u, d', hopen, hkeeps'.offers hopened⟩

/-! ## All that copying comes to -/

/-- What is left when one store has been copied to another: all that is stored in the source is told
to have been copied, the source has it still, and the target has it over what it had. -/
structure Overlaid (s t : Store) (d : Disk) (values old : Values) (t' : Store) (d' : Disk) :
    Prop where
  copied : s.copy t d = (t', d', .ok (s.contents d).size)
  source : s.Offers values d'
  target : t'.Offers (values.covering old) d'
  untouched : s.contents d' = s.contents d
  covered : ∀ name, (t'.contents d').get? name =
    ((s.contents d).get? name).or ((t.contents d).get? name)

theorem Keeps.overlaid (hs : s.Keeps file values d) (hopen : s.isClosed = false)
    (ht : t.Keeps file' old d) (hopen' : t.isClosed = false) (hne : file ≠ file')
    (haccepts : t.accepts (.putting values) = true) :
    ∃ t' d', Overlaid s t d values old t' d' ∧ s.Keeps file values d' ∧ t'.isClosed = false ∧
      t'.Keeps file' (values.covering old) d' ∧ t'.place = t.place := by
  rcases hs.copy hopen ht hopen' hne haccepts with ⟨t', d', hcopy, hs', hopen₁, hrequested⟩
  have ht' := hrequested.keeps
  refine ⟨t', d', ⟨?_, hs'.offers hopen, ht'.offers hopen₁, ?_, ?_⟩, hs', hopen₁, ht',
    hrequested.place⟩
  · rw [hcopy, (hs.offers hopen).size]
  · rw [hs'.contents, hs.contents]
  · intro name
    rw [ht'.contents, hs.contents, ht.contents, Values.get?_named_covering]

/-- What copying one store to another comes to, with the values of both. -/
structure Copying (s t : Store) (d : Disk) (values old : Values) : Prop where
  source : s.Offers values d
  target : t.Offers old d
  -- all that is stored is copied, and to copy it again changes nothing that is stored
  copied : t.accepts (.putting values) = true →
    ∃ t₁ d₁, Overlaid s t d values old t₁ d₁ ∧
      ∃ t₂ d₂, Overlaid s t₁ d₁ values (values.covering old) t₂ d₂ ∧
        t₂.contents d₂ = t₁.contents d₁
  refused : t.accepts (.putting values) = false → ∃ e, s.copy t d = (t, d, .error e)
  chain : ∀ results u d', Copies values s d results u d' →
    (∀ r ∈ results, r = .ok (s.contents d).size) ∧
      u.Offers values d' ∧ u.contents d' = s.contents d
  migrations : ∀ s₁ d₁, openAt d s.place.1 s.place.2 .standard = (d₁, .ok s₁) →
    ∀ results last d', Migrations values s.place d results last d' →
      (∀ r ∈ results, r = .ok (copiedText (s.contents d).size)) ∧
        ∃ u d'', openAt d' last.1 last.2 .standard = (d'', .ok u) ∧
          u.Offers values d'' ∧ u.contents d'' = s.contents d

theorem copied_of_keeps (hs : s.Keeps file values d) (hopen : s.isClosed = false)
    (ht : t.Keeps file' old d) (hopen' : t.isClosed = false) (hne : file ≠ file')
    (haccepts : t.accepts (.putting values) = true) :
    ∃ t₁ d₁, Overlaid s t d values old t₁ d₁ ∧
      ∃ t₂ d₂, Overlaid s t₁ d₁ values (values.covering old) t₂ d₂ ∧
        t₂.contents d₂ = t₁.contents d₁ := by
  rcases hs.overlaid hopen ht hopen' hne haccepts with
    ⟨t₁, d₁, hoverlaid, hs₁, hopen₁, ht₁, hplace⟩
  rw [← accepts_of_place hplace] at haccepts
  rcases hs₁.overlaid hopen ht₁ hopen₁ hne haccepts with ⟨t₂, d₂, hagain, -, -, ht₂, -⟩
  refine ⟨t₁, d₁, hoverlaid, t₂, d₂, hagain, ?_⟩
  rw [ht₂.contents, ht₁.contents, Values.covering_covering]

/-- Two open stores that are in use and do not share a file offer values, and to copy one to the
other puts all that is stored in it over what is stored in the other, or changes nothing.  Through
any chain of stores that are opened where there were none, and through any runs of the program, what
is stored stays what it is. -/
theorem copying_of_reached (hs : Reached s d) (ht : Reached t d) (hopen : s.isClosed = false)
    (hopen' : t.isClosed = false) (hdistinct : s.Distinct t d) :
    ∃ values old, Copying s t d values old := by
  rcases hs.keeps with ⟨htidy, file, values, hkeeps⟩
  rcases ht.keeps with ⟨-, file', old, hkeeps'⟩
  have hoffers := hkeeps.offers hopen
  refine ⟨values, old, hoffers, hkeeps'.offers hopen', ?_, ?_, ?_, ?_⟩
  · exact copied_of_keeps hkeeps hopen hkeeps' hopen' (hdistinct.ne hkeeps hkeeps')
  · exact hkeeps.copy_refused hopen hkeeps' hopen'
  · intro results u d' hcopies
    rcases hcopies.keeps hkeeps hopen htidy with ⟨hresults, file₁, hkeeps₁, hopen₁, -⟩
    rw [hoffers.size]
    exact ⟨hresults, hkeeps₁.offers hopen₁, hkeeps₁.contents.trans hoffers.contents.symm⟩
  · intro s₁ d₁ hopened results last d' hmigrations
    have hheld : Held values s.place d := ⟨htidy, ⟨s, file, hkeeps, rfl⟩, s₁, d₁, hopened⟩
    rcases hmigrations.held hheld with ⟨hresults, hlast⟩
    rcases hlast.opened with ⟨u, d'', hopen'', hoffers''⟩
    rw [hoffers.size]
    exact ⟨hresults, u, d'', hopen'', hoffers'', hoffers''.contents.trans hoffers.contents.symm⟩

/-- Values for two keys, and another value for one of them. -/
def twoValues : Values := .ofList [(firstKey, "x"), (secondKey, "w")]

def oneValue : Values := .ofList [(firstKey, "v")]

/-- Two values are put in a versioned store, beside which a tabular one is opened that gets another
value for one of the keys. -/
theorem exists_reached_beside :
    ∃ s t d, Reached s d ∧ Reached t d ∧ s.isClosed = false ∧ t.isClosed = false ∧
      s.place = (.tabular, "table") ∧ s.Distinct t d ∧
      s.contents d = oneValue.named ∧ t.contents d = twoValues.named ∧
      t.accepts (.putting oneValue) = true ∧
      (∃ d₁, openAt d .tabular "copy" .standard = (d₁, .ok (.tabular ⟨"copy", false⟩)) ∧
        Table.IsNew d d₁ "copy") ∧
      ∃ d₁ s₁ d₂, openAt d .tabular "table" .standard = (d₁, .ok s₁) ∧
        openAt d₁ .tabular "copy" .standard = (d₂, .ok (.tabular ⟨"copy", false⟩)) ∧
        Table.IsNew d₁ d₂ "copy" := by
  have hrun : ∃ d₁ t d₂ t' d₃ s s' d, openAt .empty .versioned "store" .standard = (d₁, .ok t) ∧
      t.reply d₁ (.call (.perform (.putting twoValues))) = (t', d₂, .answer (.ok (.values .empty))) ∧
      openAt d₂ .tabular "table" .standard = (d₃, .ok s) ∧ Table.IsNew d₂ d₃ "table" ∧
      s.reply d₃ (.call (.perform (.putting oneValue))) = (s', d, .answer (.ok (.values .empty))) ∧
      t'.place = (.versioned, "store") ∧ s.place = (.tabular, "table") ∧
      s'.place = (.tabular, "table") ∧ s'.isClosed = false ∧ t'.isClosed = false ∧
      s'.contents d = oneValue.named ∧ t'.contents d = twoValues.named ∧
      t'.accepts (.putting oneValue) = true ∧
      (∃ d₁, openAt d .tabular "copy" .standard = (d₁, .ok (.tabular ⟨"copy", false⟩)) ∧
        Table.IsNew d d₁ "copy") ∧
      ∃ d₁ s₁ d₂, openAt d .tabular "table" .standard = (d₁, .ok s₁) ∧
        openAt d₁ .tabular "copy" .standard = (d₂, .ok (.tabular ⟨"copy", false⟩)) ∧
        Table.IsNew d₁ d₂ "copy" :=
    ⟨_, _, _, _, _, _, _, _, rfl, rfl, rfl, ⟨_, _, rfl, rfl, rfl, rfl⟩, rfl, rfl, rfl, rfl, rfl, rfl,
      rfl, rfl, rfl, ⟨_, rfl, _, _, rfl, rfl, rfl, rfl⟩,
      ⟨_, _, _, rfl, rfl, _, _, rfl, rfl, rfl, rfl⟩⟩
  rcases hrun with ⟨d₁, t, d₂, t', d₃, s, s', d, hopen, hreply, hopen', hnew, hreply', hplace,
    hplace', hplace'', hopened, hopened', hrest⟩
  have hseparate : Separate (.versioned, "store") (.tabular, "table") :=
    ⟨by decide, by decide, by decide⟩
  have hseparate' : Separate (.tabular, "table") (.versioned, "store") :=
    ⟨by decide, by decide, by decide⟩
  have ht₁ : Reached t d₁ := .opened Disk.isTidy_empty (.versioned isFresh_empty hopen)
  have ht₂ := ht₁.request (.call (.perform (.putting twoValues)))
  rw [hreply] at ht₂
  have ht₃ := ht₂.opening hopen' (by rwa [hplace])
  have hs₃ : Reached s d₃ := .opened ht₂.keeps.1 (.tabular hopen' hnew)
  have hs := hs₃.request (.call (.perform (.putting oneValue)))
  have ht := ht₃.beside hs₃ (by rwa [hplace, hplace']) (.call (.perform (.putting oneValue)))
  rw [hreply'] at hs ht
  exact ⟨s', t', d, hs, ht, hopened, hopened', hplace'',
    distinct_of_separate hs ht (by rwa [hplace'', hplace]), hrest⟩

/-- Such a store can be copied to the other one, and to a third one, and a run of the program copies
it as well. -/
theorem copying_of_reached_first :
    ∃ s t d, Reached s d ∧ Reached t d ∧ s.isClosed = false ∧ t.isClosed = false ∧
      s.Distinct t d ∧ s.place = (.tabular, "table") ∧ Copying s t d oneValue twoValues ∧
      t.accepts (.putting oneValue) = true ∧
      (∃ result d', Copies oneValue s d [result] (.tabular ⟨"copy", false⟩) d') ∧
      ∃ result d', Migrations oneValue (.tabular, "table") d [result] (.tabular, "copy") d' := by
  rcases exists_reached_beside with ⟨s, t, d, hs, ht, hopen, hopen', hplace, hdistinct, hone, htwo,
    haccepts, ⟨d₁, hopen₁, hnew₁⟩, d₂, s₁, d₃, hopen₂, hopen₃, hnew₃⟩
  rcases copying_of_reached hs ht hopen hopen' hdistinct with ⟨values, old, hcopying⟩
  cases SortedMap.named_injective (hcopying.source.contents.symm.trans hone)
  cases SortedMap.named_injective (hcopying.target.contents.symm.trans htwo)
  have hseparate : Separate (.tabular, "table") (.tabular, "copy") :=
    ⟨by decide, by decide, by decide⟩
  have hnil : Copies oneValue s d [] s d := .nil
  have hcopies := hnil.cons (.tabular hopen₁ hnew₁) (by rwa [hplace]) rfl
  have hcopied : (s.copy (.tabular ⟨"copy", false⟩) d₁).1 = .tabular ⟨"copy", false⟩ := by
    simp only [copy]
    split <;> rfl
  rw [hcopied] at hcopies
  have hnone : Migrations oneValue (.tabular, "table") d [] (.tabular, "table") d := .nil
  exact ⟨s, t, d, hs, ht, hopen, hopen', hdistinct, hplace, hcopying, haccepts, ⟨_, _, hcopies⟩, _,
    _, hnone.cons hopen₂ (.tabular hopen₃ hnew₃) hseparate rfl⟩

end Store
end GuardedStore
