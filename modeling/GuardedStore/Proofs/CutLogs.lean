import GuardedStore.Proofs.AcceptedLogs
import GuardedStore.Proofs.CompactionLimit

/-!
# CutLogs — logs that are cut off at any length

A log of commits that is cut to any length that leaves its header, or to nothing, is the log of
those commits whose frames lie within the length, and perhaps the beginning of one more frame
(`Log.accepted_of_cut`).  So the store that is opened on it is the store as it was after these
commits, and it goes on from there: later commits come behind them
(`VersionedStore.resumes_of_cut`).
-/

namespace GuardedStore

theorem Bytes.extract_of_size_le {bytes : ByteArray} {n : Nat} (h : bytes.size ≤ n) :
    bytes.extract 0 n = bytes := by
  calc
    bytes.extract 0 n = bytes.extract 0 bytes.size ++ bytes.extract bytes.size n :=
      ByteArray.extract_eq_extract_append_extract _ (Nat.zero_le _) h
    _ = bytes ++ .empty := by
      rw [ByteArray.extract_zero_size,
        ByteArray.extract_eq_empty_iff.2 (Nat.min_le_right n bytes.size)]
    _ = bytes := ByteArray.append_empty

namespace Log

open Bytes

variable {commits : List (UInt64 × Change)} {torn : ByteArray} {last : UInt64} {p : Nat}

/-! ## Frames within a length -/

namespace Scan

/-- The number of frames that end within a length, if the first one starts at a position. -/
def wholeFrames (pos : Nat) (frames : List Frame) (p : Nat) : Nat :=
  (positions pos frames).countP (fun e => e.2 ≤ p)

theorem lt_of_mem_positions {pos : Nat} {frames : List Frame} {e : Frame × Nat}
    (he : e ∈ positions pos frames) : pos < e.2 := by
  induction frames generalizing pos with
  | nil => cases he
  | cons f frames ih =>
      have hsize := Frame.size_encoded f
      rcases List.mem_cons.1 he with rfl | he
      · show pos < pos + f.encoded.size
        omega
      · have hrest := ih he
        omega

theorem wholeFrames_of_le {pos : Nat} (frames : List Frame) (hp : p ≤ pos) :
    wholeFrames pos frames p = 0 := by
  refine List.countP_eq_zero.2 ?_
  intro e he
  have hend := lt_of_mem_positions he
  simp only [decide_eq_true_eq]
  omega

theorem wholeFrames_cons_of_le {pos : Nat} (f : Frame) (frames : List Frame)
    (hp : pos + f.encoded.size ≤ p) :
    wholeFrames pos (f :: frames) p = wholeFrames (pos + f.encoded.size) frames p + 1 :=
  List.countP_cons_of_pos (by simpa using hp)

theorem wholeFrames_cons_of_lt {pos : Nat} (f : Frame) (frames : List Frame)
    (hp : p < pos + f.encoded.size) : wholeFrames pos (f :: frames) p = 0 := by
  have hfirst : wholeFrames pos (f :: frames) p = wholeFrames (pos + f.encoded.size) frames p :=
    List.countP_cons_of_neg (by simpa using hp)
  exact hfirst.trans (wholeFrames_of_le frames (Nat.le_of_lt hp))

/-- The first bytes of frames are those frames that lie within them, and the beginning of the next
one. -/
theorem extract_joined (frames : List Frame) (hfit : ∀ f ∈ frames, f.bodySize ≤ Frame.largestBody)
    (pos n : Nat) :
    ∃ torn, Torn torn ∧
      (joined frames).extract 0 n =
        joined (frames.take (wholeFrames pos frames (pos + n))) ++ torn := by
  induction frames generalizing pos n with
  | nil => exact ⟨.empty, torn_empty, by simp [wholeFrames, positions]⟩
  | cons f frames ih =>
      rw [joined_cons, ByteArray.extract_append, Nat.zero_sub]
      rcases Nat.lt_or_ge n f.encoded.size with hless | hwhole
      · -- the cut is in the first frame
        refine ⟨f.encoded.extract 0 n, ⟨f, n, hfit f (by simp), hless, rfl⟩, ?_⟩
        have hnone : n - f.encoded.size = 0 := by omega
        rw [wholeFrames_cons_of_lt f frames (by omega), hnone]
        simp
      · rcases ih (fun g hg => hfit g (by simp [hg])) (pos + f.encoded.size)
          (n - f.encoded.size) with ⟨torn, htorn, hrest⟩
        have hsum : pos + f.encoded.size + (n - f.encoded.size) = pos + n := by omega
        rw [hsum] at hrest
        refine ⟨torn, htorn, ?_⟩
        rw [wholeFrames_cons_of_le f frames (by omega), List.take_succ_cons, joined_cons,
          extract_of_size_le hwhole, hrest, ByteArray.append_assoc]

end Scan

/-! ## Cut logs -/

/-- The number of commits whose frames lie within the first bytes of their log. -/
def wholeCommits (commits : List (UInt64 × Change)) (p : Nat) : Nat :=
  Scan.wholeFrames headerSize (commits.map frameOf) p

/-- What may be left of a frame is an unfinished one. -/
theorem Torn.unfinished (h : Torn torn) : Unfinished torn := by
  rcases h with ⟨f, n, hfit, hn, rfl⟩
  have hsize : (f.encoded.extract 0 n).size = n := by
    rw [ByteArray.size_extract]
    omega
  rcases Nat.eq_zero_or_pos n with rfl | hpos
  · simpa using unfinished_empty
  · -- the reading would stop in the middle of it
    have hread : Step.read (f.encoded.extract 0 n) 0 = .truncated :=
      Step.read_torn (at_self _) (by omega) hpos hn hfit
    have hleft := ((Step.read_eq_truncated_iff (Nat.zero_le _)).1 hread).2
    rwa [ByteArray.extract_zero_size] at hleft

theorem Ascending.take (h : Ascending last commits) (j : Nat) :
    Ascending last (commits.take j) := by
  induction h generalizing j with
  | nil last =>
      rw [List.take_nil]
      exact .nil last
  | cons hlt hfits _ ih =>
      cases j with
      | zero => exact .nil _
      | succ j => exact .cons hlt hfits (ih j)

/-- The first bytes of a log are the log of the commits within them, and the beginning of a
frame. -/
theorem extract_logBytes (h : Ascending last commits) (hp : headerSize ≤ p) :
    ∃ torn, Torn torn ∧
      (logBytes commits).extract 0 p =
        logBytes (commits.take (wholeCommits commits p)) ++ torn := by
  rcases Scan.extract_joined (commits.map frameOf) (fits_frameOf (fun _ => h.fits)) headerSize
    (p - headerSize) with ⟨torn, htorn, hjoined⟩
  have hsum : headerSize + (p - headerSize) = p := by omega
  have hheader : header.extract 0 p = header := extract_of_size_le (by rwa [size_header])
  rw [hsum] at hjoined
  refine ⟨torn, htorn, ?_⟩
  calc
    (logBytes commits).extract 0 p =
        header ++ (Scan.joined (commits.map frameOf)).extract 0 (p - headerSize) := by
      rw [logBytes, ByteArray.extract_append, Nat.zero_sub, size_header, hheader]
    _ = header ++ Scan.joined ((commits.take (wholeCommits commits p)).map frameOf) ++ torn := by
      rw [hjoined, ByteArray.append_assoc, List.map_take]
      rfl

/-- A log that is cut, so that its header is left or nothing at all, is accepted. -/
theorem accepted_of_cut (h : Ascending 0 commits) (hp : p = 0 ∨ headerSize ≤ p) :
    ∃ torn, Accepted ((logBytes commits).extract 0 p)
      (logBytes (commits.take (wholeCommits commits p)))
      (commits.take (wholeCommits commits p)) torn := by
  rcases hp with rfl | hp
  · have hnone : wholeCommits commits 0 = 0 := Scan.wholeFrames_of_le _ (Nat.zero_le _)
    refine ⟨.empty, .inl ⟨by simp, ?_, by rw [hnone, List.take_zero], rfl⟩⟩
    rw [hnone, List.take_zero, logBytes]
    simp
  · rcases extract_logBytes h hp with ⟨torn, htorn, hcut⟩
    rw [hcut]
    exact ⟨torn, .inr ⟨_, _, parts_logBytes (h.take _) htorn.unfinished, rfl⟩⟩

end Log

/-- The disk after a file was cut to a length. -/
def Disk.cut (d : Disk) (id p : Nat) : Disk :=
  d.setContent id (.bytes ((d.bytes id).extract 0 p))

/-! ## Opening what is left -/

/-- A log that is cut is opened with the commits that are left as a whole. -/
theorem CommitLog.Holds.openAt_of_cut {log : CommitLog} {d : Disk}
    {commits : List (UInt64 × Log.Change)} {p : Nat} (h : log.Holds d commits .empty)
    (hp : p = 0 ∨ Log.headerSize ≤ p) :
    ∃ d' log' replay, CommitLog.openAt (d.cut log.file p) log.path = (d', .ok (log', replay)) ∧
      replay.commits = commits.take (Log.wholeCommits commits p) ∧
      log'.Holds d' replay.commits .empty := by
  have hbytes : d.bytes log.file = Log.logBytes commits := by
    rw [Disk.bytes_eq h.content, ByteArray.append_empty]
  have hcut : (d.cut log.file p).bytes log.file = (Log.logBytes commits).extract 0 p := by
    rw [← hbytes]
    exact Disk.bytes_eq (Disk.content_setContent d log.file _)
  have hlinked : (d.cut log.file p).Linked log.path log.file := h.linked.of_entries rfl
  rcases Log.accepted_of_cut h.ascending hp with ⟨torn, haccepted⟩
  rw [← hcut] at haccepted
  refine ⟨_, _, _, openAt_of_accepted hlinked haccepted, rfl, hlinked.of_entries rfl, ?_,
    h.ascending.take _, Log.torn_empty⟩
  rw [ByteArray.append_empty]
  exact Disk.content_setContent _ log.file _

namespace VersionedStore

open Versioned Log

variable {s : VersionedStore} {d d₀ d₁ : Disk} {path : String} {log : CommitLog} {replay : Replay}
  {settings : StorageSettings} {batches : List Batch} {commits : List (UInt64 × Change)}
  {seq : UInt64} {p : Nat}

/-- Whether a log of some commits is compacted when it is opened. -/
def Compacts (commits : List (UInt64 × Change)) : Prop :=
  compactFrom ≤ commits.length ∧
    2 * (Committed.empty.applyAll commits).entries.size < commits.length

instance (commits : List (UInt64 × Change)) : Decidable (Compacts commits) :=
  inferInstanceAs (Decidable (_ ∧ _))

/-- The commits that a log has after it was opened with some commits. -/
def keptCommits (commits : List (UInt64 × Change)) : List (UInt64 × Change) :=
  if Compacts commits then
    [((Committed.empty.applyAll commits).seq, (Committed.empty.applyAll commits).snapshot)]
  else commits

/-- A store is opened with what its log says, unless the log has to be compacted and cannot be. -/
theorem opened_of_holds (hlog : CommitLog.openAt d path = (d₁, .ok (log, replay)))
    (hholds : log.Holds d₁ replay.commits .empty) (settings : StorageSettings)
    (hfits : Compacts replay.commits → (Committed.empty.applyAll replay.commits).snapshot.Fits) :
    ∃ d' log', VersionedStore.openAt d path settings =
        (d', .ok (opened log' (Committed.empty.applyAll replay.commits) settings)) ∧
      (opened log' (Committed.empty.applyAll replay.commits) settings).Synced d'
        (keptCommits replay.commits) ∧ log'.path = path := by
  have hneeded : needsCompaction log (Committed.empty.applyAll replay.commits) = true ↔
      Compacts replay.commits := needsCompaction_iff hlog
  by_cases hcompacts : Compacts replay.commits
  · rcases openAt_compacted hlog settings (hneeded.2 hcompacts) (hfits hcompacts) with
      ⟨d', file, commit, rfl, hopen, hsynced⟩
    refine ⟨d', _, hopen, ?_, rfl⟩
    rw [keptCommits, if_pos hcompacts]
    exact hsynced
  · have hplain := Bool.eq_false_iff.2 (mt hneeded.1 hcompacts)
    rcases CommitLog.openAt_ok hlog with ⟨_, _, _, -, -, -, -, -, hopened⟩
    have hframes : log.frames = replay.commits.length := by rw [hopened]; rfl
    have hintact : log.poisoned = false := by rw [hopened]; rfl
    refine ⟨d₁, log, openAt_plain hlog settings hplain, ?_, by rw [hopened]; rfl⟩
    rw [keptCommits, if_neg hcompacts]
    exact ⟨hholds, hintact, hframes, .refl _, Committed.sized_empty.applyAll _⟩

/-- A store that says what its file says is opened again with all that it has. -/
theorem Synced.preserved (h : s.Synced d commits) (settings : StorageSettings)
    (hfits : needsCompaction s.log s.committed = true → s.committed.snapshot.Fits) :
    ∃ d' s', VersionedStore.openAt d s.log.path settings = (d', .ok s') ∧ s'.Preserves s := by
  rcases h.openAt with ⟨d₁, log, replay, hlog, rfl, hopened, hholds⟩
  have hsnapshot : Compacts replay.commits →
      (Committed.empty.applyAll replay.commits).snapshot.Fits := by
    intro hcompacts
    have hneeded := (needsCompaction_iff hlog).2 hcompacts
    rw [hopened, needsCompaction_opened h] at hneeded
    rw [h.agrees.snapshot_eq]
    exact hfits hneeded
  rcases opened_of_holds hlog hholds settings hsnapshot with ⟨d', log', hopen, -, -⟩
  exact ⟨d', _, hopen, preserves_opened log' settings h⟩

/-! ## Numbers of commits -/

/-- What a store has in memory after some batches is what their commits amount to. -/
theorem committed_performAll (hopen : s.closed = false) (hattempts : 0 < s.maxAttempts)
    (hintact : s.log.poisoned = false) (batches : List Batch) :
    (s.performAll d batches).1.committed =
      s.committed.applyAll (numbered s.committed.seq batches) := by
  induction batches generalizing s d with
  | nil => rfl
  | cons b rest ih =>
      by_cases hcommits : b.isReadOnly = false ∧ b.change.Fits
      · have hfirst := perform_fits (d := d) hopen hattempts hcommits.1 hintact hcommits.2
        rw [performAll, hfirst, numbered, if_pos hcommits, Committed.applyAll_cons]
        exact ih (s := s.committing b.change) hopen hattempts hintact
      · have hsame : ∃ answer, s.perform d b = (s, d, answer) := by
          cases hread : b.isReadOnly with
          | true => exact ⟨_, perform_readOnly hopen hattempts hread⟩
          | false =>
              have hlarge : ¬ b.change.Fits := fun hfits => hcommits ⟨hread, hfits⟩
              exact ⟨_, perform_large hopen hattempts hread hintact hlarge⟩
        rcases hsame with ⟨answer, hanswer⟩
        rw [performAll, hanswer, numbered, if_neg hcommits]
        exact ih hopen hattempts hintact

/-- The first commits of some batches are the commits of the first batches. -/
theorem exists_numbered_take (seq : UInt64) (batches : List Batch) (j : Nat) :
    ∃ n, numbered seq (batches.take n) = (numbered seq batches).take j := by
  induction batches generalizing seq j with
  | nil => exact ⟨0, by simp [numbered]⟩
  | cons b rest ih =>
      by_cases hcommits : b.isReadOnly = false ∧ b.change.Fits
      · cases j with
        | zero => exact ⟨0, rfl⟩
        | succ j =>
            rcases ih (seq + 1) j with ⟨n, hn⟩
            refine ⟨n + 1, ?_⟩
            rw [List.take_succ_cons, numbered, numbered, if_pos hcommits, if_pos hcommits, hn,
              List.take_succ_cons]
      · rcases ih seq j with ⟨n, hn⟩
        refine ⟨n + 1, ?_⟩
        rw [List.take_succ_cons, numbered, numbered, if_neg hcommits, if_neg hcommits, hn]

/-- Commits are numbered one by one. -/
theorem toNat_lastOf_numbered (batches : List Batch)
    (hroom : seq.toNat + (numbered seq batches).length < 2 ^ 64) :
    (Replay.lastOf seq (numbered seq batches)).toNat =
      seq.toNat + (numbered seq batches).length := by
  induction batches generalizing seq with
  | nil => rfl
  | cons b rest ih =>
      rw [numbered] at hroom ⊢
      split at hroom
      · rename_i hcommits
        rw [List.length_cons] at hroom
        have hnext : (seq + 1).toNat = seq.toNat + 1 := toNat_next (by omega)
        have hrest : (Replay.lastOf (seq + 1) (numbered (seq + 1) rest)).toNat =
            (seq + 1).toNat + (numbered (seq + 1) rest).length := ih (by omega)
        rw [if_pos hcommits, lastOf_cons, List.length_cons, hrest, hnext]
        omega
      · rename_i hcommits
        rw [if_neg hcommits]
        exact ih hroom

/-- A store that has been opened is open, and attempts each batch at least once. -/
theorem ready_of_openAt (h : VersionedStore.openAt d path settings = (d₁, .ok s)) :
    s.closed = false ∧ 0 < s.maxAttempts := by
  have hattempts : 0 < max 1 settings.maxAttempts.toNat := by omega
  rcases replayed_of_openAt h with ⟨_, _, _, _, -, -, rfl⟩
  exact ⟨rfl, hattempts⟩

/-! ## Going on -/

/-- A store that goes on from some commits: it has what they amount to, takes in all that fits a
frame, and whoever opens its log finds these commits and then the later ones, each of them once. -/
structure Resumes (s : VersionedStore) (d : Disk) (path : String)
    (commits : List (UInt64 × Change)) : Prop where
  isOpen : s.closed = false
  committed : s.committed = Committed.empty.applyAll commits
  replayed : ∀ more, commits.length + (numbered s.committed.seq more).length < 2 ^ 64 - 1 →
    (s.performAll d more).2.2.map Except.toBool =
        more.map (fun b => b.isReadOnly || decide b.change.Fits) ∧
      (s.performAll d more).1.committed =
        Committed.empty.applyAll (commits ++ numbered s.committed.seq more) ∧
      ∃ d' log replay, CommitLog.openAt (s.performAll d more).2.1 path = (d', .ok (log, replay)) ∧
        replay.commits = keptCommits commits ++ numbered s.committed.seq more
  reopened : ∀ more settings,
    commits.length + (numbered s.committed.seq more).length < 2 ^ 64 - 1 →
      (needsCompaction (s.performAll d more).1.log (s.performAll d more).1.committed = true →
        (s.performAll d more).1.committed.snapshot.Fits) →
      ∃ d' s', VersionedStore.openAt (s.performAll d more).2.1 path settings = (d', .ok s') ∧
        s'.Preserves (s.performAll d more).1

theorem resumes_of_synced
    (h : (opened log (Committed.empty.applyAll commits) settings).Synced d (keptCommits commits))
    (hseq : (Committed.empty.applyAll commits).seq.toNat = commits.length) :
    (opened log (Committed.empty.applyAll commits) settings).Resumes d log.path commits := by
  have hattempts : 0 < (opened log (Committed.empty.applyAll commits) settings).maxAttempts := by
    simp only [opened]
    omega
  have hperformed : ∀ more : List Batch,
      commits.length + (numbered (Committed.empty.applyAll commits).seq more).length <
        2 ^ 64 - 1 →
      Performed (opened log (Committed.empty.applyAll commits) settings) d (keptCommits commits)
        more := by
    intro more hroom
    rw [← hseq] at hroom
    exact h.performed rfl hattempts more hroom
  refine ⟨rfl, rfl, ?_, ?_⟩
  · intro more hroom
    rcases hperformed more hroom with ⟨hsynced, hpath, hanswers⟩
    rcases hsynced.openAt with ⟨d', log', replay, hlog, hcommits, -⟩
    rw [hpath] at hlog
    refine ⟨hanswers, ?_, d', log', replay, hlog, hcommits⟩
    rw [Committed.applyAll_append]
    exact committed_performAll rfl hattempts h.intact more
  · intro more settings' hroom hfits
    rcases hperformed more hroom with ⟨hsynced, hpath, -⟩
    rcases hsynced.preserved settings' hfits with ⟨d', s', hopen, hpreserves⟩
    rw [hpath] at hopen
    exact ⟨d', s', hopen, hpreserves⟩

/-- The log of a store is cut to any length that leaves its header, or to nothing.  Then the store
is opened as it was after those commits whose frames lie within the length, and goes on from
there. -/
theorem resumes_of_cut (hfresh : d.IsFresh path)
    (hopen : VersionedStore.openAt d path settings = (d₀, .ok s)) (batches : List Batch)
    (hroom : (numbered 0 batches).length < 2 ^ 64 - 1) (hp : p = 0 ∨ headerSize ≤ p)
    (settings' : StorageSettings)
    (hfits : Compacts ((numbered 0 batches).take (wholeCommits (numbered 0 batches) p)) →
      (Committed.empty.applyAll
        ((numbered 0 batches).take (wholeCommits (numbered 0 batches) p))).snapshot.Fits) :
    (s.performAll d₀ batches).2.1.content (s.performAll d₀ batches).1.log.file =
        .bytes (logBytes (numbered 0 batches)) ∧
      ∃ d' s' n,
        VersionedStore.openAt
            ((s.performAll d₀ batches).2.1.cut (s.performAll d₀ batches).1.log.file p) path
            settings' = (d', .ok s') ∧
          numbered 0 (batches.take n) =
            (numbered 0 batches).take (wholeCommits (numbered 0 batches) p) ∧
          s'.committed = (s.performAll d₀ (batches.take n)).1.committed ∧
          s'.Resumes d' path
            ((numbered 0 batches).take (wholeCommits (numbered 0 batches) p)) := by
  rcases synced_of_isFresh hfresh hopen with ⟨hfirst, hpath, hempty⟩
  rcases ready_of_openAt hopen with ⟨hopened, hattempts⟩
  have hseq : s.committed.seq = 0 := by rw [hempty]; rfl
  have hperformed := hfirst.performed hopened hattempts batches (by rw [hseq]; simpa using hroom)
  rcases hperformed with ⟨hsynced, hsame, -⟩
  rw [hseq, List.nil_append] at hsynced
  have hcontent := hsynced.holds.content
  rw [ByteArray.append_empty] at hcontent
  refine ⟨hcontent, ?_⟩
  -- what is left are the first commits, and those are the commits of the first batches
  rcases hsynced.holds.openAt_of_cut hp with ⟨d', log, replay, hlog, hcommits, hholds⟩
  rw [hsame, hpath] at hlog
  rw [← hcommits] at hfits ⊢
  rcases exists_numbered_take 0 batches (wholeCommits (numbered 0 batches) p) with ⟨n, hn⟩
  rw [← hcommits] at hn
  rcases opened_of_holds hlog hholds settings' hfits with ⟨d₁, log', hopen', hsynced', rfl⟩
  refine ⟨d₁, _, n, hopen', hn, ?_, resumes_of_synced hsynced' ?_⟩
  · rw [committed_performAll hopened hattempts hfirst.intact, hseq, hempty, hn]
    rfl
  · -- the numbers of the first commits are those up to their count
    have hfew : (numbered 0 (batches.take n)).length ≤ (numbered 0 batches).length := by
      rw [hn, hcommits]
      exact List.length_take_le' _ _
    have hlast : (Replay.lastOf 0 (numbered 0 (batches.take n))).toNat =
        (0 : UInt64).toNat + (numbered 0 (batches.take n)).length :=
      toNat_lastOf_numbered (batches.take n) (by rw [UInt64.toNat_zero]; omega)
    rw [UInt64.toNat_zero, Nat.zero_add, hn] at hlast
    rw [Committed.seq_applyAll]
    exact hlast

/-- Two updates of different keys. -/
def twoBatches : List Batch := [.updating firstKey "v", .updating secondKey "w"]

theorem numbered_twoBatches :
    numbered 0 twoBatches = [(1, ⟨[("/a", "v")], []⟩), (2, ⟨[("/d", "w")], []⟩)] := by decide

/-- Of two updates the second one is cut off in the middle of its frame.  The first one is found,
and a later update comes behind it. -/
theorem resumes_of_cut_second :
    ∃ d d' d'' s' log replay,
      VersionedStore.openAt .empty "store" .standard = (d, .ok firstStore) ∧
        VersionedStore.openAt ((firstStore.performAll d twoBatches).2.1.cut
          (firstStore.performAll d twoBatches).1.log.file 40) "store" .standard = (d', .ok s') ∧
        s'.committed.contents.toList = [("/a", "v")] ∧
        CommitLog.openAt (s'.performAll d' [.updating firstKey "x"]).2.1 "store" =
          (d'', .ok (log, replay)) ∧
        replay.commits = [(1, ⟨[("/a", "v")], []⟩), (2, ⟨[("/a", "x")], []⟩)] := by
  rcases openAt_firstStore with ⟨d, hopen⟩
  have hleft : (numbered 0 twoBatches).take (wholeCommits (numbered 0 twoBatches) 40) =
      [(1, ⟨[("/a", "v")], []⟩)] := by
    rw [numbered_twoBatches]
    decide
  have hroom : (numbered 0 twoBatches).length < 2 ^ 64 - 1 := by
    rw [numbered_twoBatches]
    decide
  rcases resumes_of_cut isFresh_empty hopen twoBatches hroom (.inr (by decide : headerSize ≤ 40))
      .standard (by rw [hleft]; intro hcompacts; exact absurd hcompacts (by decide)) with
    ⟨-, d', s', n, hopen', -, -, hresumes⟩
  rw [hleft] at hresumes
  have hseq : s'.committed.seq = 1 := by rw [hresumes.committed]; rfl
  have hnumbered : numbered s'.committed.seq [.updating firstKey "x"] =
      [(2, ⟨[("/a", "x")], []⟩)] := by
    rw [hseq]
    decide
  rcases hresumes.replayed [.updating firstKey "x"] (by rw [hnumbered]; decide) with
    ⟨-, -, d'', log, replay, hlog, hcommits⟩
  refine ⟨d, d', d'', s', log, replay, hopen, hopen', ?_, hlog, ?_⟩
  · rw [hresumes.committed]
    rfl
  · rw [hcommits, hnumbered]
    rfl

end VersionedStore
end GuardedStore
