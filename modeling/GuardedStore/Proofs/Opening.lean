import GuardedStore.Proofs.CommittedContents
import GuardedStore.Proofs.LogFile

/-!
# Opening — what opening a store makes of its log

Whoever opens a store gets what the commits in its log amount to.  If most of the commits are
superseded, the log is replaced by a single one that puts all values (`openAt_compacted`); only if
that one does not fit a frame, the store is refused (`openAt_refused`).  So a store that is opened
has one of two logs (`openAt_cases`).

A store is `Synced` when the file of its log says what the store has in memory.
-/

namespace GuardedStore
namespace VersionedStore

open Versioned Log

variable {s : VersionedStore} {d d' d₁ : Disk} {path : String} {log : CommitLog} {replay : Replay}
  {commits : List (UInt64 × Change)} {torn : ByteArray}

/-- The store that is got from a log and what has been committed. -/
def opened (log : CommitLog) (committed : Committed) (settings : StorageSettings) :
    VersionedStore :=
  ⟨log, committed, false, max 1 settings.maxAttempts.toNat, 0⟩

/-! ## Stores that say what their files say -/

/-- The file of the log holds commits that amount to what is in memory. -/
structure Synced (s : VersionedStore) (d : Disk) (commits : List (UInt64 × Change)) : Prop where
  holds : s.log.Holds d commits .empty
  intact : s.log.poisoned = false
  frames : s.log.frames = commits.length
  agrees : Committed.Agrees (Committed.empty.applyAll commits) s.committed
  sized : s.committed.Sized

/-- The last number is that of the last commit in the file. -/
theorem Synced.lastOf_eq (h : s.Synced d commits) :
    Replay.lastOf 0 commits = s.committed.seq := by
  rw [← h.agrees.seq, Committed.seq_applyAll]
  rfl

/-! ## With and without compaction -/

/-- Whoever opens a store opens its log. -/
theorem log_of_openAt {settings : StorageSettings}
    (hopen : openAt d path settings = (d', .ok s)) :
    ∃ d₁ log replay, CommitLog.openAt d path = (d₁, .ok (log, replay)) := by
  unfold openAt at hopen
  split at hopen
  · cases hopen
  · rename_i d₁ log replay hlog
    exact ⟨d₁, log, replay, hlog⟩

/-- A log that is worth compacting has a last commit. -/
theorem seq_pos_of_needsCompaction (hlog : CommitLog.openAt d path = (d₁, .ok (log, replay)))
    (hneeded : needsCompaction log (Committed.empty.applyAll replay.commits) = true) :
    0 < (Committed.empty.applyAll replay.commits).seq := by
  rcases CommitLog.openAt_ok hlog with ⟨_, _, _, -, -, hrecover, -, -, hopened⟩
  have hincreasing := increasing_of_recover hrecover
  have hframes : log.frames = replay.commits.length := by rw [hopened]; rfl
  rw [Committed.seq_applyAll]
  cases hcommits : replay.commits with
  | nil =>
      -- no commits are too few
      simp [needsCompaction, hframes, hcommits, compactFrom] at hneeded
  | cons commit commits =>
      rw [hcommits] at hincreasing
      rw [lastOf_cons]
      -- the first number is positive, and the last one is no smaller
      exact UInt64.lt_of_lt_of_le hincreasing.tail.1 hincreasing.tail.2.le_lastOf

/-- Opening a store whose log is left as it is. -/
theorem openAt_plain (hlog : CommitLog.openAt d path = (d₁, .ok (log, replay)))
    (settings : StorageSettings)
    (hplain : needsCompaction log (Committed.empty.applyAll replay.commits) = false) :
    VersionedStore.openAt d path settings =
      (d₁, .ok (opened log (Committed.empty.applyAll replay.commits) settings)) := by
  simp only [VersionedStore.openAt, hlog, hplain, Bool.false_eq_true, if_false, opened]

/-- Opening a store whose log is compacted. -/
theorem openAt_compacted (hlog : CommitLog.openAt d path = (d₁, .ok (log, replay)))
    (settings : StorageSettings)
    (hneeded : needsCompaction log (Committed.empty.applyAll replay.commits) = true)
    (hfits : (Committed.empty.applyAll replay.commits).snapshot.Fits) :
    ∃ d' file commit, commit = ((Committed.empty.applyAll replay.commits).seq,
        (Committed.empty.applyAll replay.commits).snapshot) ∧
      VersionedStore.openAt d path settings = (d', .ok (opened (.opened path file [commit])
        (Committed.empty.applyAll replay.commits) settings)) ∧
      (opened (.opened path file [commit]) (Committed.empty.applyAll replay.commits)
        settings).Synced d' [commit] := by
  have hpos := seq_pos_of_needsCompaction hlog hneeded
  rcases CommitLog.openAt_ok hlog with ⟨_, _, _, -, -, -, -, hlinked, hopened⟩
  have hpath : log.path = path := by rw [hopened]; rfl
  rw [← hpath] at hlinked
  -- a file with a single frame takes over the name of the log
  rcases CommitLog.compact_fits hlinked hpos hfits with ⟨d', file, hcompact, hholds⟩
  rw [hpath] at hcompact hholds
  refine ⟨d', file, _, rfl, ?_, ?_⟩
  · simp only [VersionedStore.openAt, hlog, hneeded, if_true, hcompact, opened]
  · -- the commit puts what the log before amounted to
    exact ⟨hholds, rfl, rfl, Committed.agrees_snapshot _, Committed.sized_empty.applyAll _⟩

/-- Opening a store that cannot be compacted. -/
theorem openAt_refused (hlog : CommitLog.openAt d path = (d₁, .ok (log, replay)))
    (settings : StorageSettings)
    (hneeded : needsCompaction log (Committed.empty.applyAll replay.commits) = true)
    (hlarge : ¬ (Committed.empty.applyAll replay.commits).snapshot.Fits) :
    VersionedStore.openAt d path settings = (d₁, .error (.storage .largeSnapshot)) := by
  simp only [VersionedStore.openAt, hlog, hneeded, if_true, CommitLog.compact_large hlarge]

/-- Whoever opens a store whose log is found gets what the log says; the log is left as it is, or
replaced by one with a single commit. -/
theorem openAt_cases {settings : StorageSettings}
    (hlog : CommitLog.openAt d path = (d₁, .ok (log, replay)))
    (hopen : VersionedStore.openAt d path settings = (d', .ok s)) :
    (d' = d₁ ∧ s = opened log (Committed.empty.applyAll replay.commits) settings) ∨
      ∃ file commit, s = opened (.opened path file [commit])
          (Committed.empty.applyAll replay.commits) settings ∧ s.Synced d' [commit] := by
  cases hneeded : needsCompaction log (Committed.empty.applyAll replay.commits) with
  | false =>
      rw [openAt_plain hlog settings hneeded] at hopen
      cases hopen
      exact .inl ⟨rfl, rfl⟩
  | true =>
      by_cases hfits : (Committed.empty.applyAll replay.commits).snapshot.Fits
      · rcases openAt_compacted hlog settings hneeded hfits with
          ⟨d₂, file, commit, -, hresult, hsynced⟩
        rw [hresult] at hopen
        cases hopen
        exact .inr ⟨file, commit, rfl, hsynced⟩
      · rw [openAt_refused hlog settings hneeded hfits] at hopen
        cases hopen

/-! ## Opening -/

/-- Whoever opens a store has in memory what the commits in its log amount to. -/
theorem replayed_of_openAt {settings : StorageSettings}
    (hopen : VersionedStore.openAt d path settings = (d', .ok s)) :
    ∃ d₁ log replay log', CommitLog.openAt d path = (d₁, .ok (log, replay)) ∧
      Increasing 0 replay.commits ∧
        s = opened log' (Committed.empty.applyAll replay.commits) settings := by
  rcases log_of_openAt hopen with ⟨d₁, log, replay, hlog⟩
  rcases CommitLog.openAt_ok hlog with ⟨_, _, _, -, -, hrecover, -⟩
  have hincreasing := increasing_of_recover hrecover
  rcases openAt_cases hlog hopen with ⟨-, hopened⟩ | ⟨file, commit, hopened, -⟩
  · exact ⟨d₁, log, replay, log, hlog, hincreasing, hopened⟩
  · exact ⟨d₁, log, replay, .opened path file [commit], hlog, hincreasing, hopened⟩

/-- Whoever has opened a log that holds its commits gets a store that says the same. -/
theorem synced_of_openAt {settings : StorageSettings}
    (hlog : CommitLog.openAt d path = (d₁, .ok (log, replay)))
    (hholds : log.Holds d₁ replay.commits .empty)
    (hopen : VersionedStore.openAt d path settings = (d', .ok s)) :
    ∃ commits, s.Synced d' commits ∧ s.log.path = path ∧
      s.committed = Committed.empty.applyAll replay.commits := by
  rcases openAt_cases hlog hopen with ⟨rfl, rfl⟩ | ⟨file, commit, rfl, hsynced⟩
  · rcases CommitLog.openAt_ok hlog with ⟨_, _, _, -, -, -, -, -, hopened⟩
    have hframes : log.frames = replay.commits.length := by rw [hopened]; rfl
    have hpath : log.path = path := by rw [hopened]; rfl
    have hintact : log.poisoned = false := by rw [hopened]; rfl
    have hsized := Committed.sized_empty.applyAll replay.commits
    exact ⟨replay.commits, ⟨hholds, hintact, hframes, .refl _, hsized⟩, hpath, rfl⟩
  · exact ⟨[commit], hsynced, rfl, rfl⟩

/-- Whoever has opened a fresh file gets an empty store. -/
theorem synced_of_isFresh {settings : StorageSettings} (hfresh : d.IsFresh path)
    (hopen : VersionedStore.openAt d path settings = (d', .ok s)) :
    s.Synced d' [] ∧ s.log.path = path ∧ s.committed = .empty := by
  rcases log_of_openAt hopen with ⟨d₁, log, replay, hlog⟩
  -- a log without commits is not worth compacting
  rcases CommitLog.holds_of_isFresh hfresh hlog with ⟨hholds, hopened, rfl⟩
  have hplain : needsCompaction log (Committed.empty.applyAll Replay.new.commits) = false := by
    rw [hopened]
    rfl
  rw [openAt_plain hlog settings hplain] at hopen
  cases hopen
  refine ⟨⟨hholds, ?_, ?_, .refl _, Committed.sized_empty⟩, ?_, rfl⟩
  · rw [opened, hopened]
    rfl
  · rw [opened, hopened]
    rfl
  · rcases CommitLog.openAt_ok hlog with ⟨_, _, _, -, -, -, -, -, hlog'⟩
    rw [opened, hlog']
    rfl

def firstKey : Key := ⟨"/a", by decide, by decide, by decide⟩

def secondKey : Key := ⟨"/d", by decide, by decide, by decide⟩

/-- The store that is opened first on an empty disk. -/
def firstStore : VersionedStore := ⟨⟨"store", 0, 0, false⟩, .empty, false, 10, 0⟩

theorem isFresh_empty : Disk.IsFresh .empty "store" := by
  intro d id h
  cases h
  rfl

theorem openAt_firstStore :
    ∃ d, VersionedStore.openAt .empty "store" .standard = (d, .ok firstStore) :=
  ⟨_, rfl⟩

end VersionedStore
end GuardedStore
