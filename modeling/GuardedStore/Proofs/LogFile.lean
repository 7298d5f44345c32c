import GuardedStore.Log.CommitLog
import GuardedStore.Proofs.DiskPaths
import GuardedStore.Proofs.LogRecovery

/-!
# LogFile — an open log and its file

`CommitLog.Holds` ties an open log to what its file holds: some commits, and perhaps what is left of
a frame whose writing stopped.  Whoever opens the file finds these commits and cuts off the rest
(`Holds.openAt`), a commit that fits a frame is added behind them (`Holds.append`), and compaction
replaces them by a single one (`Holds.compact`).
-/

namespace GuardedStore

open Log

/-- Opening the path finds an empty file or makes one. -/
def Disk.IsFresh (d : Disk) (path : String) : Prop :=
  ∀ d' id, (d.makeParents path).1.open? path = some (d', id) → d'.bytes id = .empty

namespace CommitLog

variable {log : CommitLog} {d d' : Disk} {path : String} {replay : Replay}
  {commits : List (UInt64 × Change)} {torn : ByteArray} {seq : UInt64} {change : Change}

/-- The file of a log holds some commits, and what is left of a frame. -/
structure Holds (log : CommitLog) (d : Disk) (commits : List (UInt64 × Change)) (torn : ByteArray) :
    Prop where
  linked : d.Linked log.path log.file
  content : d.content log.file = .bytes (logBytes commits ++ torn)
  ascending : Ascending 0 commits
  torn : Torn torn

/-! ## Opening -/

/-- The log that is got by opening a file with some commits. -/
def opened (path : String) (file : Nat) (commits : List (UInt64 × Change)) : CommitLog :=
  ⟨path, file, commits.length, false⟩

/-- What opening a path does, once the file is found. -/
theorem openAt_ok (h : openAt d path = (d', .ok (log, replay))) :
    ∃ d₁ d₂ bytes, d.makeParents path = (d₁, true) ∧ d₁.open? path = some (d₂, log.file) ∧
      recover path (d₂.bytes log.file) = .ok (bytes, replay) ∧
      d' = d₂.setContent log.file (.bytes bytes) ∧ d'.Linked path log.file ∧
      log = opened path log.file replay.commits := by
  unfold openAt at h
  split at h
  · cases h
  · rename_i d₁ hparents
    split at h
    · cases h
    · rename_i d₂ file hopen
      split at h
      · cases h
      · rename_i bytes found hrecover
        cases h
        -- the directories were made on the way, so the path is linked
        have hlinked := Disk.linked_of_open? (Disk.hasParents_of_makeParents hparents) hopen
        exact ⟨d₁, d₂, bytes, hparents, hopen, hrecover, rfl, hlinked.of_entries rfl, rfl⟩

/-- A file that is open can be opened again: all its commits are found. -/
theorem Holds.openAt (h : log.Holds d commits torn) :
    CommitLog.openAt d log.path =
      (d.setContent log.file (.bytes (logBytes commits)),
        .ok (opened log.path log.file commits,
          ⟨commits, Replay.lastOf 0 commits, (logBytes commits).size, torn.size⟩)) := by
  have hbytes : d.bytes log.file = logBytes commits ++ torn := Disk.bytes_eq h.content
  have hrecover := recover_logBytes log.path h.ascending h.torn
  simp only [CommitLog.openAt, h.linked.makeParents, h.linked.open?, hbytes, hrecover, opened]

theorem Holds.opened (h : log.Holds d commits torn) :
    (opened log.path log.file commits).Holds
      (d.setContent log.file (.bytes (logBytes commits))) commits .empty := by
  refine ⟨h.linked.of_entries rfl, ?_, h.ascending, torn_empty⟩
  rw [ByteArray.append_empty]
  exact Disk.content_setContent d log.file _

/-- A fresh file is a log without commits. -/
theorem holds_of_isFresh (hfresh : d.IsFresh path)
    (h : CommitLog.openAt d path = (d', .ok (log, replay))) :
    log.Holds d' [] .empty ∧ log = CommitLog.opened path log.file [] ∧ replay = .new := by
  rcases openAt_ok h with ⟨d₁, d₂, bytes, hparents, hopen, hrecover, rfl, hlinked, hlog⟩
  -- an empty file becomes a header without frames
  have hempty : d₂.bytes log.file = .empty := hfresh d₂ log.file (by rw [hparents]; exact hopen)
  have hnew : recover path .empty = .ok (header, .new) := rfl
  rw [hempty, hnew] at hrecover
  cases hrecover
  have hpath : log.path = path := by rw [hlog]; rfl
  refine ⟨⟨by rw [hpath]; exact hlinked, ?_, .nil 0, torn_empty⟩, hlog, rfl⟩
  rw [Disk.content_setContent, ByteArray.append_empty]
  simp [logBytes, Scan.joined]

/-! ## Adding commits -/

theorem encode?_frameOf (hfits : change.Fits) :
    Frame.encode? ⟨seq, change.pack⟩ = some (frameOf (seq, change)).encoded := by
  have hsize := bodySize_frameOf (seq, change)
  exact Frame.encode?_of_fits (f := frameOf (seq, change)) (by rw [hsize]; exact hfits)

theorem encode?_large (hlarge : ¬ change.Fits) : Frame.encode? ⟨seq, change.pack⟩ = none := by
  have hsize : (frameOf (seq, change)).bodySize = Frame.overhead + change.packedSize :=
    bodySize_frameOf (seq, change)
  unfold Change.Fits at hlarge
  exact Frame.encode?_eq_none_iff (f := frameOf (seq, change)).2 (by omega)

theorem append_poisoned (hpoisoned : log.poisoned = true) :
    log.append d seq change = .error (.storage (.brokenLog log.path)) := by
  rw [append, if_pos hpoisoned]

theorem append_large (hsound : log.poisoned = false) (hlarge : ¬ change.Fits) :
    log.append d seq change = .error (.storage (.largeCommit seq)) := by
  simp [append, hsound, encode?_large hlarge]

theorem append_fits (hsound : log.poisoned = false) (hfits : change.Fits) :
    log.append d seq change = .ok (d.append log.file (frameOf (seq, change)).encoded,
      { log with frames := log.frames + 1 }) := by
  simp [append, hsound, encode?_frameOf hfits]

/-- What a successful addition says about the commit. -/
theorem append_ok {log' : CommitLog} (h : log.append d seq change = .ok (d', log')) :
    log.poisoned = false ∧ change.Fits ∧
      d' = d.append log.file (frameOf (seq, change)).encoded ∧
      log' = { log with frames := log.frames + 1 } := by
  cases hpoisoned : log.poisoned with
  | true =>
      rw [append_poisoned hpoisoned] at h
      cases h
  | false =>
      by_cases hfits : change.Fits
      · rw [append_fits hpoisoned hfits] at h
        cases h
        exact ⟨rfl, hfits, rfl, by rw [hpoisoned]⟩
      · rw [append_large hpoisoned hfits] at h
        cases h

/-- What keeps a commit from being added. -/
theorem append_error {e : StoreError} (h : log.append d seq change = .error e) :
    e = .storage (.brokenLog log.path) ∨ e = .storage (.largeCommit seq) := by
  cases hpoisoned : log.poisoned with
  | true =>
      rw [append_poisoned hpoisoned] at h
      cases h
      exact .inl rfl
  | false =>
      by_cases hfits : change.Fits
      · rw [append_fits hpoisoned hfits] at h
        cases h
      · rw [append_large hpoisoned hfits] at h
        cases h
        exact .inr rfl

/-- What a log holds is a matter of its file. -/
theorem Holds.of_file {log' : CommitLog} (h : log.Holds d commits torn)
    (hpath : log'.path = log.path) (hfile : log'.file = log.file) : log'.Holds d commits torn := by
  refine ⟨?_, ?_, h.ascending, h.torn⟩
  · rw [hpath, hfile]
    exact h.linked
  · rw [hfile]
    exact h.content

/-- A commit is added behind the others. -/
theorem Holds.append (h : log.Holds d commits .empty) (hseq : Replay.lastOf 0 commits < seq)
    (hfits : change.Fits) :
    log.Holds (d.append log.file (frameOf (seq, change)).encoded) (commits ++ [(seq, change)])
      .empty := by
  have hcontent := Disk.content_append h.content (frameOf (seq, change)).encoded
  refine ⟨h.linked.of_entries rfl, ?_, h.ascending.concat hseq hfits, torn_empty⟩
  simpa [logBytes_concat] using hcontent

/-- Of a frame whose writing stopped, all is behind the commits, or a part that is cut off. -/
theorem Holds.cut {written : Nat} (h : log.Holds d commits .empty)
    (hseq : Replay.lastOf 0 commits < seq) (hfits : change.Fits)
    (hpart : written ≤ (frameOf (seq, change)).encoded.size) :
    ∃ torn, log.Holds (d.append log.file ((frameOf (seq, change)).encoded.extract 0 written))
        commits torn ∨
      log.Holds (d.append log.file ((frameOf (seq, change)).encoded.extract 0 written))
        (commits ++ [(seq, change)]) torn := by
  -- a proper part is cut off later, the whole frame is a commit
  rcases Nat.lt_or_eq_of_le hpart with hless | hall
  · have hcontent := Disk.content_append h.content
      ((frameOf (seq, change)).encoded.extract 0 written)
    have hfit : (frameOf (seq, change)).bodySize ≤ Frame.largestBody := by
      rw [bodySize_frameOf]
      exact hfits
    refine ⟨(frameOf (seq, change)).encoded.extract 0 written, .inl ⟨h.linked.of_entries rfl, ?_,
      h.ascending, ⟨frameOf (seq, change), written, hfit, hless, rfl⟩⟩⟩
    simpa using hcontent
  · refine ⟨.empty, .inr ?_⟩
    rw [hall, ByteArray.extract_zero_size]
    exact h.append hseq hfits

/-! ## Compaction -/

theorem compact_large (hlarge : ¬ change.Fits) :
    log.compact d seq change = .error (.storage .largeSnapshot) := by
  simp [compact, encode?_large hlarge]

/-- A log is replaced by one with a single commit. -/
theorem compact_fits (hlinked : d.Linked log.path log.file) (hseq : 0 < seq)
    (hfits : change.Fits) :
    ∃ d' file, log.compact d seq change = .ok (d', opened log.path file [(seq, change)]) ∧
      (opened log.path file [(seq, change)]).Holds d' [(seq, change)] .empty := by
  rcases hlinked.replace (.bytes (header ++ (frameOf (seq, change)).encoded)) with
    ⟨d', file, hreplace, hlinked', hcontent⟩
  refine ⟨d', file, ?_, ?_⟩
  · simp [compact, encode?_frameOf hfits, hreplace, opened]
  · refine ⟨hlinked', ?_, .cons hseq hfits (.nil seq), torn_empty⟩
    simpa [opened, logBytes, Scan.joined] using hcontent

end CommitLog
end GuardedStore
