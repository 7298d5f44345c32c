import GuardedStore.Proofs.CutLogs
import GuardedStore.Proofs.WriteAhead

/-!
# SequenceNumbers — where the numbers of commits run out

Whatever bytes a store is opened on, its log holds frames of commits, and the last of them has the
number that the store knows (`VersionedStore.Sequenced`).  Each batch that is committed adds one
frame with the next number, modulo `2 ^ 64`, so this is kept by every run of batches
(`VersionedStore.Sequenced.performAll`).

The frames of such a log are accepted if their numbers increase (`Log.Records.accepted`), and
refused if they do not (`Log.Records.recover_unordered`).  They increase as long as they have not
come around (`increasing_numbered_iff`).
-/

namespace GuardedStore
namespace Log

open Bytes

variable {path : String} {bytes kept torn : ByteArray} {last seq : UInt64} {frames : List Frame}
  {change : Change} {commits more : List (UInt64 × Change)}

/-! ## Increasing numbers -/

theorem Increasing.append (h : Increasing last commits)
    (hmore : Increasing (Replay.lastOf last commits) more) : Increasing last (commits ++ more) := by
  induction commits generalizing last with
  | nil => exact hmore
  | cons commit commits ih =>
      rw [lastOf_cons] at hmore
      exact .cons h.tail.1 (ih h.tail.2 hmore)

/-- The last number is greater than all others. -/
theorem Increasing.lt_of_concat (h : Increasing last (commits ++ [(seq, change)])) :
    ∀ commit ∈ commits, commit.1 < seq := by
  intro commit hmem
  unfold Increasing at h
  rw [List.map_append, ← List.cons_append] at h
  exact (List.pairwise_append.1 h).2.2 commit.1
    (List.mem_cons_of_mem _ (List.mem_map_of_mem hmem)) seq (by simp)

theorem lastOf_concat (last : UInt64) (commits : List (UInt64 × Change))
    (commit : UInt64 × Change) : Replay.lastOf last (commits ++ [commit]) = commit.1 := by
  simp [Replay.lastOf]

theorem exists_mem_of_lastOf (h : Replay.lastOf last commits = seq) (hne : seq ≠ last) :
    ∃ commit ∈ commits, commit.1 = seq := by
  unfold Replay.lastOf at h
  cases hlast : commits.getLast? with
  | none =>
      rw [hlast] at h
      exact absurd h.symm hne
  | some commit =>
      rw [hlast] at h
      exact ⟨commit, List.mem_of_getLast? hlast, h⟩

/-! ## Frames in any order -/

/-- Frames of commits whose numbers do not increase are refused. -/
theorem readCommits_unordered (hwrites : List.Forall₂ Frame.Writes frames commits)
    (hnot : ¬ Increasing last commits) (pos : Nat) :
    readCommits path last (Scan.positions pos frames) =
      .error (.storage (.corruptLog path .unorderedCommit)) := by
  induction hwrites generalizing last pos with
  | nil => exact absurd (.nil last) hnot
  | @cons f commit frames commits hfirst _ ih =>
      obtain ⟨seq, change⟩ := commit
      rcases hfirst with ⟨rfl, hchange⟩
      rw [Scan.positions, readCommits]
      -- this number is too small, or one of those behind it
      split_ifs with hseq
      · rfl
      · have hrest : ¬ Increasing f.seq commits := by
          intro hrest
          exact hnot (.cons (UInt64.not_le.1 hseq) hrest)
        simp only [hchange, ih hrest]

/-- Some bytes are a header and the frames of some commits, in whatever order. -/
def Records (bytes : ByteArray) (commits : List (UInt64 × Change)) : Prop :=
  ∃ head frames, bytes = head ++ Scan.joined frames ∧ IsHeader head ∧
    (∀ f ∈ frames, f.bodySize ≤ Frame.largestBody) ∧ List.Forall₂ Frame.Writes frames commits

theorem records_logBytes (hfits : ∀ commit ∈ commits, commit.2.Fits) :
    Records (logBytes commits) commits := by
  refine ⟨header, commits.map frameOf, rfl, isHeader_header, fits_frameOf hfits, ?_⟩
  rw [List.forall₂_map_left_iff, List.forall₂_same]
  intro commit hmem
  exact writes_frameOf commit (hfits commit hmem)

/-- What is kept of bytes that are accepted. -/
theorem Accepted.records (h : Accepted bytes kept commits torn) : Records kept commits := by
  rcases h with ⟨-, rfl, rfl, -⟩ | ⟨head, frames, hparts, rfl⟩
  · have hempty : Records (logBytes []) [] := records_logBytes (by simp)
    simpa [logBytes] using hempty
  · exact ⟨head, frames, rfl, hparts.header, hparts.fit, hparts.writes⟩

theorem records_of_recover {r : Replay} (h : recover path bytes = .ok (kept, r)) :
    Records kept r.commits := by
  rcases accepted_of_recover h with ⟨kept', commits, torn, haccepted⟩
  rw [recover_of_accepted path haccepted] at h
  cases h
  exact haccepted.records

theorem exists_frame_of_mem {commit : UInt64 × Change}
    (hwrites : List.Forall₂ Frame.Writes frames commits) (hmem : commit ∈ commits) :
    ∃ f ∈ frames, f.Writes commit := by
  induction hwrites with
  | nil => cases hmem
  | cons hfirst _ ih =>
      rcases List.mem_cons.1 hmem with rfl | hmem
      · exact ⟨_, List.mem_cons_self, hfirst⟩
      · rcases ih hmem with ⟨f, hf, hcommit⟩
        exact ⟨f, List.mem_cons_of_mem _ hf, hcommit⟩

namespace Records

/-- One more frame behind the others. -/
theorem append (h : Records bytes commits) (hfits : change.Fits) :
    Records (bytes ++ (frameOf (seq, change)).encoded) (commits ++ [(seq, change)]) := by
  rcases h with ⟨head, frames, rfl, hheader, hfit, hwrites⟩
  refine ⟨head, frames ++ [frameOf (seq, change)], ?_, hheader, ?_, ?_⟩
  · rw [Scan.joined_append, Scan.joined_cons, Scan.joined_nil, ByteArray.append_empty,
      ByteArray.append_assoc]
  · intro f hf
    rcases List.mem_append.1 hf with hf | hf
    · exact hfit f hf
    · rw [List.mem_singleton.1 hf, bodySize_frameOf]
      exact hfits
  · exact List.rel_append hwrites (.cons (writes_frameOf _ hfits) .nil)

/-- Each commit has a frame, which is read where it stands, whatever comes behind the frames. -/
theorem exists_frame {commit : UInt64 × Change} (h : Records bytes commits)
    (hmem : commit ∈ commits) (rest : ByteArray) :
    ∃ (f : Frame) (before behind : ByteArray), f.Writes commit ∧
      bytes ++ rest = before ++ f.encoded ++ behind ∧
      (f, (before ++ f.encoded).size) ∈
        (Scan.run (before ++ f.encoded ++ behind) headerSize).frames := by
  rcases h with ⟨head, frames, rfl, hheader, hfit, hwrites⟩
  rcases exists_frame_of_mem hwrites hmem with ⟨f, hf, hcommit⟩
  rcases List.append_of_mem hf with ⟨earlier, later, rfl⟩
  have hsplit : head ++ Scan.joined (earlier ++ f :: later) ++ rest =
      head ++ Scan.joined earlier ++ f.encoded ++ (Scan.joined later ++ rest) := by
    rw [Scan.joined_append, Scan.joined_cons]
    simp only [ByteArray.append_assoc]
  refine ⟨f, head ++ Scan.joined earlier, Scan.joined later ++ rest, hcommit, hsplit, ?_⟩
  -- the reading starts behind the header
  have hat := at_append_self head (Scan.joined (earlier ++ f :: later)) rest
  rw [hheader.size] at hat
  have hend : (head ++ Scan.joined earlier ++ f.encoded).size =
      headerSize + (Scan.joined earlier ++ f.encoded).size := by
    rw [ByteArray.append_assoc, ByteArray.size_append, hheader.size]
  rw [← hsplit, hend, Scan.run_frames _ hat hfit]
  exact List.mem_append_left _ (Scan.mem_positions headerSize earlier f later)

/-- As long as the numbers increase, the bytes are accepted as they are. -/
theorem accepted (h : Records bytes commits) (hincreasing : Increasing 0 commits) :
    Accepted bytes bytes commits .empty := by
  rcases h with ⟨head, frames, rfl, hheader, hfit, hwrites⟩
  refine .inr ⟨head, frames, ⟨?_, hheader, hfit, hwrites, hincreasing, unfinished_empty⟩, rfl⟩
  rw [ByteArray.append_empty]

/-- If the numbers do not increase, the bytes are refused. -/
theorem recover_unordered (h : Records bytes commits) (hnot : ¬ Increasing 0 commits) :
    recover path bytes = .error (.storage (.corruptLog path .unorderedCommit)) := by
  rcases h with ⟨head, frames, rfl, hheader, hfit, hwrites⟩
  have hhead := (at_self (head ++ Scan.joined frames)).left
  have hframes := (at_self (head ++ Scan.joined frames)).right
  rw [Nat.zero_add, hheader.size] at hframes
  have hsize : (head ++ Scan.joined frames).size = headerSize + (Scan.joined frames).size := by
    rw [ByteArray.size_append, hheader.size]
  have hnonempty : (head ++ Scan.joined frames).size ≠ 0 := by
    unfold headerSize at hsize
    omega
  -- all frames are read, up to the end
  have hend : Step.read (head ++ Scan.joined frames) (headerSize + (Scan.joined frames).size) =
      .finished := Step.read_end (Nat.le_of_eq hsize)
  have hrun := Scan.run_frames frames hframes hfit
  rw [Scan.run_of_finished hend, List.append_nil] at hrun
  rw [recover, if_neg hnonempty]
  simp only [replay, checkHeader_of_at path hheader hhead, hrun,
    readCommits_unordered hwrites hnot headerSize]

end Records
end Log

namespace VersionedStore

open Versioned Log

variable {s s₁ s₂ : VersionedStore} {d d' d₁ d₂ : Disk} {path : String} {b : Batch}
  {batches : List Batch} {commits : List (UInt64 × Change)} {seq : UInt64} {values : Values}
  {settings : StorageSettings} {answers : List (Except StoreError Values)}

/-! ## The next numbers -/

/-- The numbers of commits increase as long as they do not come around. -/
theorem increasing_numbered_iff (seq : UInt64) (batches : List Batch) :
    Increasing seq (numbered seq batches) ↔
      seq.toNat + (numbered seq batches).length < 2 ^ 64 := by
  induction batches generalizing seq with
  | nil => simpa [numbered] using ⟨fun _ => seq.toNat_lt, fun _ => Increasing.nil seq⟩
  | cons b rest ih =>
      rw [numbered]
      split_ifs with hcommits
      · rw [List.length_cons]
        by_cases hroom : seq.toNat + 1 < 2 ^ 64
        · have hrest := ih (seq + 1)
          rw [toNat_next hroom] at hrest
          constructor
          · intro h
            have hfew := hrest.1 h.tail.2
            omega
          · intro h
            exact .cons (lt_next hroom) (hrest.2 (by omega))
        · -- behind the greatest number comes zero
          have hlast : (seq + 1).toNat = 0 := by
            have hbound := seq.toNat_lt
            rw [UInt64.toNat_add, UInt64.toNat_one]
            omega
          refine ⟨fun h => ?_, fun h => by omega⟩
          have hlt := UInt64.lt_iff_toNat_lt.1 h.tail.1
          omega
      · exact ih seq

/-- When the numbers have come around, the greatest one has been given. -/
theorem exists_greatest_of_numbered
    (h : 2 ^ 64 - 1 ≤ seq.toNat + (numbered seq batches).length) :
    seq.toNat = 2 ^ 64 - 1 ∨ ∃ commit ∈ numbered seq batches, commit.1.toNat = 2 ^ 64 - 1 := by
  induction batches generalizing seq with
  | nil =>
      have hbound := seq.toNat_lt
      rw [numbered, List.length_nil] at h
      omega
  | cons b rest ih =>
      rw [numbered] at h ⊢
      split_ifs at h ⊢ with hcommits
      · rw [List.length_cons] at h
        by_cases hlast : seq.toNat = 2 ^ 64 - 1
        · exact .inl hlast
        · have hbound := seq.toNat_lt
          have hnext : (seq + 1).toNat = seq.toNat + 1 := toNat_next (by omega)
          rcases @ih (seq + 1) (by omega) with hfirst | ⟨commit, hmem, hgreatest⟩
          · exact .inr ⟨_, List.mem_cons_self, hfirst⟩
          · exact .inr ⟨commit, List.mem_cons_of_mem _ hmem, hgreatest⟩
      · exact ih h

/-! ## Logs of open stores -/

/-- The log of an open store holds some commits, in whatever order, and the last of them has the
number that the store knows. -/
structure Sequenced (s : VersionedStore) (d : Disk) (path : String)
    (commits : List (UInt64 × Change)) : Prop where
  isOpen : s.closed = false
  attempts : 0 < s.maxAttempts
  intact : s.log.poisoned = false
  opened : s.log.path = path
  linked : d.Linked path s.log.file
  records : ∃ bytes, d.content s.log.file = .bytes bytes ∧ Records bytes commits
  last : Replay.lastOf 0 commits = s.committed.seq

/-- A store on a log that is left as it is. -/
theorem sequenced_opened {log : CommitLog} {replay : Replay}
    (hlog : CommitLog.openAt d path = (d', .ok (log, replay))) (settings : StorageSettings) :
    (opened log (Committed.empty.applyAll replay.commits) settings).Sequenced d' path
      replay.commits := by
  have hattempts : 0 < max 1 settings.maxAttempts.toNat := by omega
  rcases CommitLog.openAt_ok hlog with ⟨_, d₂, bytes, -, -, hrecover, rfl, hlinked, hlog'⟩
  have hcontent := Disk.content_setContent d₂ log.file (.bytes bytes)
  have hlast := Committed.seq_applyAll .empty replay.commits
  exact ⟨rfl, hattempts, congrArg CommitLog.poisoned hlog', congrArg CommitLog.path hlog', hlinked,
    ⟨bytes, hcontent, records_of_recover hrecover⟩, hlast.symm⟩

/-- Whatever a store is opened on, its log holds commits with increasing numbers. -/
theorem sequenced_of_openAt (hopen : openAt d path settings = (d', .ok s)) :
    ∃ commits, s.Sequenced d' path commits ∧ Increasing 0 commits := by
  have hattempts : 0 < max 1 settings.maxAttempts.toNat := by omega
  rcases log_of_openAt hopen with ⟨d₁, log, replay, hlog⟩
  rcases openAt_cases hlog hopen with ⟨rfl, rfl⟩ | ⟨file, commit, rfl, hsynced⟩
  · rcases CommitLog.openAt_ok hlog with ⟨_, _, _, -, -, hrecover, -⟩
    exact ⟨_, sequenced_opened hlog settings, increasing_of_recover hrecover⟩
  · -- one commit puts all values
    rcases hsynced.holds with ⟨hlinked, hcontent, hascending, -⟩
    rw [ByteArray.append_empty] at hcontent
    exact ⟨[commit], ⟨rfl, hattempts, rfl, rfl, hlinked,
      ⟨_, hcontent, records_logBytes fun _ => hascending.fits⟩, hsynced.lastOf_eq⟩,
      hascending.increasing⟩

namespace Sequenced

/-- A batch that is committed adds its frame to the log. -/
theorem committing {change : Change} (h : s.Sequenced d path commits) (hfits : change.Fits) :
    (s.committing change).Sequenced
      (d.append s.log.file (frameOf (s.committed.seq + 1, change)).encoded) path
      (commits ++ [(s.committed.seq + 1, change)]) := by
  rcases h.records with ⟨bytes, hcontent, hrecords⟩
  exact ⟨h.isOpen, h.attempts, h.intact, h.opened, h.linked.of_entries rfl,
    ⟨_, Disk.content_append hcontent _, hrecords.append hfits⟩, lastOf_concat ..⟩

/-- What a batch comes to: it is committed, or nothing is changed. -/
theorem perform (h : s.Sequenced d path commits) (b : Batch) :
    (b.isReadOnly = false ∧ b.change.Fits ∧ s.perform d b = (s.committing b.change,
      d.append s.log.file (frameOf (s.committed.seq + 1, b.change)).encoded,
      .ok (b.readFrom s.committed.contents))) ∨
    (¬ (b.isReadOnly = false ∧ b.change.Fits) ∧ ∃ answer, s.perform d b = (s, d, answer) ∧
      (b.isReadOnly = false → ∃ e, answer = .error e)) := by
  cases hwrite : b.isReadOnly with
  | true => exact .inr ⟨by simp, _, perform_readOnly h.isOpen h.attempts hwrite, nofun⟩
  | false =>
      by_cases hfits : b.change.Fits
      · exact .inl ⟨rfl, hfits, perform_fits h.isOpen h.attempts hwrite h.intact hfits⟩
      · exact .inr ⟨fun hboth => hfits hboth.2, _,
          perform_large h.isOpen h.attempts hwrite h.intact hfits, fun _ => ⟨_, rfl⟩⟩

/-- A batch that writes and is answered without an error is committed. -/
theorem of_perform (h : s.Sequenced d path commits) (hwrite : b.isReadOnly = false)
    (hperform : s.perform d b = (s₂, d₂, .ok values)) :
    b.change.Fits ∧ s₂ = s.committing b.change ∧
      d₂ = d.append s.log.file (frameOf (s.committed.seq + 1, b.change)).encoded := by
  rcases h.perform b with ⟨-, hfits, hcommit⟩ | ⟨-, answer, hsame, herror⟩
  · rw [hcommit] at hperform
    cases hperform
    exact ⟨hfits, rfl, rfl⟩
  · rcases herror hwrite with ⟨e, rfl⟩
    rw [hsame] at hperform
    cases hperform

/-- Batches add the frames of those that are committed, with the numbers that come next. -/
theorem performAll (h : s.Sequenced d path commits) (batches : List Batch) :
    (s.performAll d batches).1.Sequenced (s.performAll d batches).2.1 path
      (commits ++ numbered s.committed.seq batches) := by
  induction batches generalizing s d commits with
  | nil => simpa [VersionedStore.performAll, numbered] using h
  | cons b rest ih =>
      rw [VersionedStore.performAll, numbered]
      rcases h.perform b with ⟨hwrite, hfits, hcommit⟩ | ⟨hnot, answer, hsame, -⟩
      · have hrest := ih (h.committing hfits)
        rw [List.append_assoc] at hrest
        rw [hcommit, if_pos ⟨hwrite, hfits⟩]
        exact hrest
      · rw [hsame, if_neg hnot]
        exact ih h

/-- A log whose numbers increase is opened, and all of its commits are found. -/
theorem openAt (h : s.Sequenced d path commits) (hincreasing : Increasing 0 commits) :
    ∃ d' replay, CommitLog.openAt d path = (d', .ok (.opened path s.log.file commits, replay)) ∧
      replay.commits = commits ∧ replay.lastSeq = s.committed.seq ∧ replay.tornSize = 0 := by
  rcases h.records with ⟨bytes, hcontent, hrecords⟩
  have haccepted := hrecords.accepted hincreasing
  rw [← Disk.bytes_eq hcontent] at haccepted
  exact ⟨_, _, CommitLog.openAt_of_accepted h.linked haccepted, rfl, h.last, rfl⟩

/-- A log whose numbers do not increase is refused. -/
theorem openAt_unordered (h : s.Sequenced d path commits) (hnot : ¬ Increasing 0 commits) :
    CommitLog.openAt d path = (d, .error (.storage (.corruptLog path .unorderedCommit))) := by
  rcases h.records with ⟨bytes, hcontent, hrecords⟩
  rw [CommitLog.openAt_eq h.linked, Disk.bytes_eq hcontent, hrecords.recover_unordered hnot]

/-- After a run of batches the next number is greater than all others, unless the numbers have come
around. -/
theorem increasing_concat (h : s.Sequenced d path commits) (hincreasing : Increasing 0 commits)
    (hafter : s₁.Sequenced d₁ path (commits ++ numbered s.committed.seq batches)) (change : Change)
    (hroom : s.committed.seq.toNat + (numbered s.committed.seq batches).length < 2 ^ 64 - 1) :
    Increasing 0 (commits ++ numbered s.committed.seq batches ++
      [(s₁.committed.seq + 1, change)]) := by
  have hfew : s.committed.seq.toNat + (numbered s.committed.seq batches).length < 2 ^ 64 := by
    omega
  -- the last number in the file is the last one that was given
  have hlast := hafter.last
  have hseq := toNat_lastOf_numbered batches hfew
  rw [System.lastOf_append, h.last] at hlast
  rw [hlast] at hseq
  have hnext : s₁.committed.seq < s₁.committed.seq + 1 := lt_next (by omega)
  have hmore : Increasing (Replay.lastOf 0 commits) (numbered s.committed.seq batches) := by
    rw [h.last]
    exact (increasing_numbered_iff _ batches).2 hfew
  refine (hincreasing.append hmore).append ?_
  rw [hafter.last]
  exact .cons hnext (.nil _)

/-- When the numbers have come around, the greatest one is in the file. -/
theorem exists_greatest (h : s.Sequenced d path commits)
    (hspent : 2 ^ 64 - 1 ≤ s.committed.seq.toNat + (numbered s.committed.seq batches).length) :
    ∃ commit ∈ commits ++ numbered s.committed.seq batches, commit.1.toNat = 2 ^ 64 - 1 := by
  rcases exists_greatest_of_numbered hspent with hlast | ⟨commit, hmem, hgreatest⟩
  · have hne : s.committed.seq ≠ 0 := by
      intro hzero
      rw [hzero] at hlast
      cases hlast
    rcases exists_mem_of_lastOf h.last hne with ⟨commit, hmem, hseq⟩
    exact ⟨commit, List.mem_append_left _ hmem, by rw [hseq, hlast]⟩
  · exact ⟨commit, List.mem_append_right _ hmem, hgreatest⟩

end Sequenced

/-- Whatever log a store is opened on, and whatever batches come first: a batch that writes and is
answered without an error adds one frame, with the number after that of the last one.  As long as
the greatest number has not been given, this number is greater than those of all frames before, and
whoever opens the log finds the commit behind the others.  After that the numbers start again with
zero, and the log is refused. -/
theorem sequenced_of_acknowledged (hopen : openAt d path settings = (d', .ok s))
    (hbefore : s.performAll d' batches = (s₁, d₁, answers)) (hwrite : b.isReadOnly = false)
    (hafter : s₁.perform d₁ b = (s₂, d₂, .ok values)) :
    ∃ commits, s₁.Sequenced d₁ path commits ∧
      d₂ = d₁.append s₁.log.file (frameOf (s₁.committed.seq + 1, b.change)).encoded ∧
      s₂.Sequenced d₂ path (commits ++ [(s₁.committed.seq + 1, b.change)]) ∧
      (s.committed.seq.toNat + (numbered s.committed.seq batches).length < 2 ^ 64 - 1 →
        (∀ commit ∈ commits, commit.1 < s₁.committed.seq + 1) ∧
        ∃ d₃ log replay, CommitLog.openAt d₂ path = (d₃, .ok (log, replay)) ∧
          replay.commits = commits ++ [(s₁.committed.seq + 1, b.change)] ∧
          replay.lastSeq = s₁.committed.seq + 1 ∧ replay.tornSize = 0) ∧
      (2 ^ 64 - 1 ≤ s.committed.seq.toNat + (numbered s.committed.seq batches).length →
        (∃ commit ∈ commits, s₁.committed.seq + 1 ≤ commit.1) ∧
        CommitLog.openAt d₂ path =
          (d₂, .error (.storage (.corruptLog path .unorderedCommit)))) := by
  rcases sequenced_of_openAt hopen with ⟨base, hsequenced, hincreasing⟩
  have hsequenced₁ := hsequenced.performAll batches
  simp only [hbefore] at hsequenced₁
  rcases hsequenced₁.of_perform hwrite hafter with ⟨hfits, rfl, rfl⟩
  have hsequenced₂ := hsequenced₁.committing hfits
  refine ⟨_, hsequenced₁, rfl, hsequenced₂, ?_, ?_⟩
  · intro hroom
    have hall := hsequenced.increasing_concat hincreasing hsequenced₁ b.change hroom
    rcases hsequenced₂.openAt hall with ⟨d₃, replay, hlog, hcommits, hseq, htorn⟩
    exact ⟨hall.lt_of_concat, d₃, _, replay, hlog, hcommits, hseq, htorn⟩
  · intro hspent
    rcases hsequenced.exists_greatest hspent with ⟨commit, hmem, hgreatest⟩
    have hle : s₁.committed.seq + 1 ≤ commit.1 := by
      rw [UInt64.le_iff_toNat_le, hgreatest]
      exact Nat.le_pred_of_lt (UInt64.toNat_lt _)
    refine ⟨⟨commit, hmem, hle⟩, hsequenced₂.openAt_unordered ?_⟩
    intro hall
    exact UInt64.not_lt.2 hle (hall.lt_of_concat commit hmem)

/-! ## The last numbers -/

/-- A disk with a log that holds one commit with some number. -/
def withCommit (seq : UInt64) : Disk :=
  (Disk.empty.place ["store"] (.bytes (logBytes [(seq, ⟨[("/a", "v")], []⟩)]))).1

/-- Such a log is opened, and a batch that fits a frame is committed with the next number. -/
theorem perform_withCommit (seq : UInt64) (hpos : 0 < seq) (hwrite : b.isReadOnly = false)
    (hfits : b.change.Fits) :
    ∃ d s d₁ s₁ values, openAt (withCommit seq) "store" .standard = (d, .ok s) ∧
      s.performAll d [] = (s, d, []) ∧ s.committed.seq = seq ∧
      s.Sequenced d "store" [(seq, ⟨[("/a", "v")], []⟩)] ∧
      s.perform d b = (s₁, d₁, .ok values) ∧
      s₁.Sequenced d₁ "store" [(seq, ⟨[("/a", "v")], []⟩), (seq + 1, b.change)] := by
  have hlinked : (withCommit seq).Linked "store" 0 :=
    Disk.Linked.place (Or.inl rfl) rfl (by decide) _
  have hascending : Ascending 0 [(seq, ⟨[("/a", "v")], []⟩)] := .cons hpos (by decide) (.nil seq)
  have haccepted : Log.Accepted ((withCommit seq).bytes 0) _ _ .empty :=
    (records_logBytes fun _ => hascending.fits).accepted hascending.increasing
  have hlog := CommitLog.openAt_of_accepted hlinked haccepted
  have hsequenced := sequenced_opened hlog .standard
  rcases hsequenced.perform b with ⟨-, -, hcommit⟩ | ⟨hnot, -⟩
  · exact ⟨_, _, _, _, _, openAt_plain hlog .standard rfl, rfl, rfl, hsequenced, hcommit,
      hsequenced.committing hfits⟩
  · exact absurd ⟨hwrite, hfits⟩ hnot

/-- The last commit that there is a number for. -/
theorem sequenced_of_acknowledged_last :
    ∃ d d₁ d₂ s s₁ b values log replay,
      openAt (withCommit 18446744073709551614) "store" .standard = (d, .ok s) ∧
        s.perform d b = (s₁, d₁, .ok values) ∧
        CommitLog.openAt d₁ "store" = (d₂, .ok (log, replay)) ∧
        replay.lastSeq = 18446744073709551615 := by
  have hfits : (Batch.updating ⟨"/b", by decide, by decide, by decide⟩ "w").change.Fits := by
    decide
  rcases perform_withCommit 18446744073709551614 (by decide) rfl hfits with
    ⟨d, s, d₁, s₁, values, hopen, hnone, hseq, -, hperform, -⟩
  rcases sequenced_of_acknowledged hopen hnone rfl hperform with ⟨commits, -, -, -, hroom, -⟩
  rw [hseq] at hroom
  rcases hroom (by decide) with ⟨-, d₂, log, replay, hlog, -, hlast, -⟩
  exact ⟨d, d₁, d₂, s, s₁, _, values, log, replay, hopen, hperform, hlog, hlast⟩

/-- Behind the greatest number comes zero: the update is acknowledged, and the log is refused from
then on. -/
theorem exists_refused_acknowledged :
    ∃ d d₁ s s₁ b values,
      openAt (withCommit 18446744073709551615) "store" .standard = (d, .ok s) ∧
      s.Sequenced d "store" [(18446744073709551615, ⟨[("/a", "v")], []⟩)] ∧ b.isReadOnly = false ∧
      s.perform d b = (s₁, d₁, .ok values) ∧
      s₁.Sequenced d₁ "store" [(18446744073709551615, ⟨[("/a", "v")], []⟩), (0, b.change)] ∧
      CommitLog.openAt d₁ "store" =
        (d₁, .error (.storage (.corruptLog "store" .unorderedCommit))) := by
  have hfits : (Batch.updating ⟨"/b", by decide, by decide, by decide⟩ "w").change.Fits := by
    decide
  rcases perform_withCommit 18446744073709551615 (by decide) rfl hfits with
    ⟨d, s, d₁, s₁, values, hopen, -, -, hsequenced, hperform, hsequenced₁⟩
  refine ⟨d, d₁, s, s₁, _, values, hopen, hsequenced, rfl, hperform, hsequenced₁,
    hsequenced₁.openAt_unordered ?_⟩
  intro hincreasing
  exact absurd hincreasing.tail.2.tail.1 (by decide)

end VersionedStore
end GuardedStore
