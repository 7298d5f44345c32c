import GuardedStore.Proofs.Performing

/-!
# Sessions — a store that is closed and opened again

Whoever opens a store again finds what was there, whether or not the log is compacted on the way,
and can go on from there: later commits come behind the one that compaction has made
(`preserved_of_reopen`).
-/

namespace GuardedStore
namespace VersionedStore

open Versioned Log

variable {s s' : VersionedStore} {d d' : Disk} {path : String} {batches : List Batch}
  {commits : List (UInt64 × Change)}

/-! ## Closing and opening again -/

/-- A store on a fresh file that is worked on by one call after the other, closed and opened
again. -/
inductive Session (path : String) : VersionedStore → Disk → Prop where
  | fresh {d d' : Disk} {settings : StorageSettings} {s : VersionedStore} : d.IsFresh path →
      VersionedStore.openAt d path settings = (d', .ok s) → Session path s d'
  | perform {s : VersionedStore} {d : Disk} (b : Batch) : Session path s d →
      (b.isReadOnly = false → s.committed.seq.toNat + 1 < 2 ^ 64 - 1) →
      Session path (s.perform d b).1 (s.perform d b).2.1
  | close {s : VersionedStore} {d : Disk} : Session path s d → Session path s.close d
  | reopen {s s' : VersionedStore} {d d' : Disk} {settings : StorageSettings} : Session path s d →
      VersionedStore.openAt d path settings = (d', .ok s') → Session path s' d'

theorem Synced.openAt (h : s.Synced d commits) :
    ∃ d₁ log replay, CommitLog.openAt d s.log.path = (d₁, .ok (log, replay)) ∧
      replay.commits = commits ∧ log = .opened s.log.path s.log.file commits ∧
      log.Holds d₁ commits .empty :=
  ⟨_, _, _, h.holds.openAt, rfl, rfl, h.holds.opened⟩

/-- Whatever was performed is found by whoever opens the log again. -/
theorem Synced.replayed (h : s.Synced d commits) (hopen : s.closed = false)
    (hattempts : 0 < s.maxAttempts) (batches : List Batch)
    (hroom : s.committed.seq.toNat + batches.length < 2 ^ 64 - 1) :
    (s.performAll d batches).2.2.map Except.toBool =
        batches.map (fun b => b.isReadOnly || decide b.change.Fits) ∧
      ∃ d₁ log replay,
        CommitLog.openAt (s.performAll d batches).2.1 s.log.path = (d₁, .ok (log, replay)) ∧
          replay.commits = commits ++ numbered s.committed.seq batches := by
  rcases h.performAll hopen hattempts batches hroom with ⟨hsynced, hpath, hanswers⟩
  rcases hsynced.openAt with ⟨d₁, log, replay, hlog, hcommits, -⟩
  rw [hpath] at hlog
  exact ⟨hanswers, d₁, log, replay, hlog, hcommits⟩

theorem Session.synced (h : Session path s d) :
    ∃ commits, s.Synced d commits ∧ s.log.path = path := by
  induction h with
  | fresh hfresh hopen =>
      rcases synced_of_isFresh hfresh hopen with ⟨hsynced, hpath, -⟩
      exact ⟨[], hsynced, hpath⟩
  | perform b _ hroom ih =>
      rcases ih with ⟨commits, hsynced, hpath⟩
      rcases hsynced.perform hroom with ⟨⟨more, hmore⟩, hsame, -⟩
      exact ⟨commits ++ more, hmore, hsame.trans hpath⟩
  | close _ ih =>
      rcases ih with ⟨commits, hsynced, hpath⟩
      exact ⟨commits, ⟨hsynced.holds, hsynced.intact, hsynced.frames, hsynced.agrees,
        hsynced.sized⟩, hpath⟩
  | reopen _ hopen ih =>
      rcases ih with ⟨commits, hsynced, rfl⟩
      -- whoever opens the path again finds the commits that the log holds
      rcases hsynced.openAt with ⟨d₁, log, replay, hlog, hcommits, -, hholds⟩
      rw [← hcommits] at hholds
      rcases synced_of_openAt hlog hholds hopen with ⟨commits', hsynced', hpath, -⟩
      exact ⟨commits', hsynced', hpath⟩

/-- Performing batches is part of the session. -/
theorem Session.performAll (h : Session path s d) (batches : List Batch)
    (hroom : s.committed.seq.toNat + batches.length < 2 ^ 64 - 1) :
    Session path (s.performAll d batches).1 (s.performAll d batches).2.1 := by
  induction batches generalizing s d with
  | nil => exact h
  | cons b rest ih =>
      rw [List.length_cons] at hroom
      have hnext : b.isReadOnly = false → s.committed.seq.toNat + 1 < 2 ^ 64 - 1 := by
        intro _
        omega
      rcases h.synced with ⟨commits, hsynced, -⟩
      rcases hsynced.perform hnext with ⟨-, -, hseq⟩
      have hrest : (s.perform d b).1.committed.seq.toNat + rest.length < 2 ^ 64 - 1 := by
        omega
      exact ih (h.perform b hnext) hrest

/-- The store is open and has all that another one had. -/
structure Preserves (s' s : VersionedStore) : Prop where
  isOpen : s'.closed = false
  contents : s'.committed.contents = s.committed.contents
  keyCount : s'.keyCount = .ok s.committed.entries.size
  dataSize : s'.dataSize = .ok s.committed.valueBytes
  seq : s'.committed.seq = s.committed.seq

theorem preserves_opened (log : CommitLog) (settings : StorageSettings) (h : s.Synced d commits) :
    (opened log (Committed.empty.applyAll commits) settings).Preserves s := by
  refine ⟨rfl, h.agrees.contents, ?_, ?_, h.agrees.seq⟩
  · rw [← h.agrees.size_eq]
    rfl
  · rw [← h.agrees.valueBytes_eq (Committed.sized_empty.applyAll commits) h.sized]
    rfl

theorem needsCompaction_opened (h : s.Synced d commits) :
    needsCompaction (.opened s.log.path s.log.file commits) (Committed.empty.applyAll commits) =
      needsCompaction s.log s.committed := by
  rw [needsCompaction, needsCompaction, h.agrees.size_eq, h.frames]
  rfl

/-- A store that is opened again has all that it had, and if its log was compacted, later commits
come behind the one that puts all values. -/
theorem preserved_of_reopen (h : Session path s d) (settings : StorageSettings)
    (hfits : needsCompaction s.log s.committed = true → s.committed.snapshot.Fits) :
    ∃ s' d', VersionedStore.openAt d path settings = (d', .ok s') ∧ s'.Preserves s ∧
      (needsCompaction s.log s.committed = true → ∀ batches : List Batch,
        s.committed.seq.toNat + batches.length < 2 ^ 64 - 1 →
          (s'.performAll d' batches).2.2.map Except.toBool =
              batches.map (fun b => b.isReadOnly || decide b.change.Fits) ∧
            ∃ d₂ log replay,
              CommitLog.openAt (s'.performAll d' batches).2.1 path = (d₂, .ok (log, replay)) ∧
                replay.commits =
                  (s.committed.seq, s.committed.snapshot) ::
                    numbered s.committed.seq batches) := by
  rcases h.synced with ⟨commits, hsynced, rfl⟩
  rcases hsynced.openAt with ⟨d₁, log, replay, hlog, rfl, hopened, -⟩
  -- whether to compact is decided on what was there before
  have hsame : needsCompaction log (Committed.empty.applyAll replay.commits) =
      needsCompaction s.log s.committed := by
    rw [hopened]
    exact needsCompaction_opened hsynced
  cases hneeded : needsCompaction s.log s.committed with
  | false =>
      refine ⟨_, _, openAt_plain hlog settings (hsame.trans hneeded),
        preserves_opened log settings hsynced, ?_⟩
      intro hnot
      cases hnot
  | true =>
      have hfitting : (Committed.empty.applyAll replay.commits).snapshot.Fits := by
        rw [hsynced.agrees.snapshot_eq]
        exact hfits hneeded
      rcases openAt_compacted hlog settings (hsame.trans hneeded) hfitting with
        ⟨d', file, commit, hcommit, hopen, hcompacted⟩
      rw [hsynced.agrees.snapshot_eq, hsynced.agrees.seq] at hcommit
      refine ⟨_, d', hopen, preserves_opened _ settings hsynced, ?_⟩
      intro _ batches hroom
      -- the store is synced with the one commit, and later ones come behind it
      have hseq : (Committed.empty.applyAll replay.commits).seq = s.committed.seq :=
        hsynced.agrees.seq
      have hattempts : 0 < max 1 settings.maxAttempts.toNat := by omega
      rw [← hseq] at hroom
      rcases hcompacted.replayed rfl hattempts batches hroom with
        ⟨hanswers, d₂, log', replay', hlog', hcommits⟩
      refine ⟨hanswers, d₂, log', replay', hlog', ?_⟩
      rw [hcommits, hcommit, ← hseq]
      rfl

/-- A value is updated more than a thousand times, and the log is compacted when the store is opened
again. -/
theorem preserved_of_reopen_repeating :
    ∃ s d, Session "store" s d ∧ needsCompaction s.log s.committed = true ∧
      s.committed.contents.toList = [("/c", "v")] ∧
      ∃ s' d', VersionedStore.openAt d "store" .standard = (d', .ok s') ∧ s'.Preserves s := by
  rcases openAt_firstStore with ⟨d, hopen⟩
  rcases synced_of_isFresh isFresh_empty hopen with ⟨hfirst, -, -⟩
  have hlength : (repeating 1023).length = 1024 := List.length_replicate
  have hroom : firstStore.committed.seq.toNat + (repeating 1023).length < 2 ^ 64 - 1 := by
    rw [hlength]
    decide
  have hsession := (Session.fresh isFresh_empty hopen).performAll (repeating 1023) hroom
  rcases hfirst.performAll rfl (by decide) (repeating 1023) hroom with ⟨hsynced, -, -⟩
  -- a thousand commits, and a single key
  have hcontents : (firstStore.performAll d (repeating 1023)).1.committed.contents =
      SortedMap.empty.insert "/c" "v" := by
    rw [← hsynced.agrees.contents]
    exact contents_repeating 1023
  have hneeded : needsCompaction (firstStore.performAll d (repeating 1023)).1.log
      (firstStore.performAll d (repeating 1023)).1.committed = true := by
    rw [needsCompaction, hsynced.frames, List.nil_append,
      length_numbered (accepted_repeating 1023), hlength, Committed.size_eq, hcontents]
    decide
  rcases preserved_of_reopen hsession .standard
      (fun _ => fits_snapshot_repeating hcontents) with ⟨s', d', hopen', hsame, -⟩
  refine ⟨_, _, hsession, hneeded, ?_, s', d', hopen', hsame⟩
  rw [hcontents]
  rfl

end VersionedStore
end GuardedStore
