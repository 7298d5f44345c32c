import GuardedStore.Proofs.Sessions

/-!
# CompactionLimit — stores that cannot be opened any more

Each commit fits a frame, but the single commit that compaction makes of all of them may not.  Then
the store is refused, although its log is intact: this is the only reason to refuse a store whose
log is replayed (`openAt_ok_iff`).

It happens: a few large values and enough small commits behind them are all acknowledged, and then
the store can never be opened again (`refused_of_crowded`).
-/

namespace GuardedStore
namespace VersionedStore

open Versioned Log

variable {d d₁ : Disk} {path : String} {log : CommitLog} {replay : Replay} {v : String}
  {batches : List Batch} {seq : UInt64}

/-! ## Which stores are refused -/

theorem needsCompaction_iff (hlog : CommitLog.openAt d path = (d₁, .ok (log, replay))) :
    needsCompaction log (Committed.empty.applyAll replay.commits) = true ↔
      compactFrom ≤ replay.commits.length ∧
        2 * (Committed.empty.applyAll replay.commits).entries.size < replay.commits.length := by
  rcases CommitLog.openAt_ok hlog with ⟨_, _, _, -, -, -, -, -, hopened⟩
  have hframes : log.frames = replay.commits.length := by rw [hopened]; rfl
  rw [needsCompaction, hframes, Bool.and_eq_true, decide_eq_true_eq, decide_eq_true_eq]

/-- A store whose log is replayed is opened with what the log says, unless the log is worth
compacting and the values do not fit a single frame. -/
theorem openAt_ok_iff (hlog : CommitLog.openAt d path = (d₁, .ok (log, replay)))
    (settings : StorageSettings) :
    ((∃ d' s, VersionedStore.openAt d path settings = (d', .ok s) ∧
        s.committed = Committed.empty.applyAll replay.commits) ↔
      ¬ (compactFrom ≤ replay.commits.length ∧
        2 * (Committed.empty.applyAll replay.commits).entries.size < replay.commits.length ∧
        Frame.largestBody < Frame.overhead +
          (Committed.empty.applyAll replay.commits).snapshot.packedSize)) ∧
    ((∃ d' s, VersionedStore.openAt d path settings = (d', .ok s)) ∨
      VersionedStore.openAt d path settings = (d₁, .error (.storage .largeSnapshot))) := by
  have hneeded := needsCompaction_iff hlog
  by_cases hneeds : needsCompaction log (Committed.empty.applyAll replay.commits) = true
  · rcases hneeded.1 hneeds with ⟨hmany, hfew⟩
    by_cases hfits : (Committed.empty.applyAll replay.commits).snapshot.Fits
    · rcases openAt_compacted hlog settings hneeds hfits with ⟨d', file, commit, -, hopen, -⟩
      refine ⟨⟨?_, ?_⟩, .inl ⟨d', _, hopen⟩⟩
      · rintro - ⟨-, -, hlarge⟩
        exact Nat.not_lt.2 hfits hlarge
      · intro _
        exact ⟨d', _, hopen, rfl⟩
    · -- the snapshot is too large
      have hrefused := openAt_refused hlog settings hneeds hfits
      refine ⟨⟨?_, ?_⟩, .inr hrefused⟩
      · rintro ⟨d', s, hopen, -⟩
        rw [hrefused] at hopen
        cases hopen
      · intro hnot
        exact absurd ⟨hmany, hfew, Nat.lt_of_not_le hfits⟩ hnot
  · have hplain := Bool.eq_false_iff.2 hneeds
    have hopen := openAt_plain hlog settings hplain
    refine ⟨⟨?_, ?_⟩, .inl ⟨_, _, hopen⟩⟩
    · rintro - ⟨hmany, hfew, -⟩
      exact hneeds (hneeded.2 ⟨hmany, hfew⟩)
    · intro _
      exact ⟨_, _, hopen, rfl⟩

/-- A value that is updated more than a thousand times leaves a log that is compacted, and the store is
opened. -/
theorem openAt_ok_of_repeating :
    ∃ d d₁ log replay, VersionedStore.openAt .empty "store" .standard = (d, .ok .firstStore) ∧
      CommitLog.openAt (firstStore.performAll d (repeating 1023)).2.1 "store" =
          (d₁, .ok (log, replay)) ∧
      replay.commits.length = 1024 ∧
      (Committed.empty.applyAll replay.commits).contents.toList = [("/c", "v")] ∧
      needsCompaction log (Committed.empty.applyAll replay.commits) = true ∧
      ∃ d' s, VersionedStore.openAt (firstStore.performAll d (repeating 1023)).2.1 "store" .standard =
          (d', .ok s) ∧ s.committed = Committed.empty.applyAll replay.commits := by
  rcases openAt_firstStore with ⟨d, hopen⟩
  rcases synced_of_isFresh isFresh_empty hopen with ⟨hsynced, -, -⟩
  have hlength : (repeating 1023).length = 1024 := List.length_replicate
  rcases hsynced.replayed rfl (by decide) (repeating 1023) (by rw [hlength]; decide) with
    ⟨-, d₁, log, replay, hlog, hcommits⟩
  have hreplayed : replay.commits = numbered 0 (repeating 1023) := hcommits
  have hmany : replay.commits.length = 1024 := by
    rw [hreplayed, length_numbered (accepted_repeating 1023), hlength]
  have hcontents : (Committed.empty.applyAll replay.commits).contents =
      SortedMap.empty.insert "/c" "v" := by
    rw [hreplayed]
    exact contents_repeating 1023
  have hneeded : needsCompaction log (Committed.empty.applyAll replay.commits) = true := by
    rw [needsCompaction_iff hlog, hmany, Committed.size_eq, hcontents]
    decide
  refine ⟨d, d₁, log, replay, hopen, hlog, hmany, by rw [hcontents]; rfl, hneeded,
    (openAt_ok_iff hlog .standard).1.2 ?_⟩
  rintro ⟨-, -, hlarge⟩
  exact Nat.not_lt.2 (fits_snapshot_repeating hcontents) hlarge

/-! ## A store that is refused -/

/-- Two values, and then small commits. -/
def crowded (v : String) (n : Nat) : List Batch :=
  .updating firstKey v ::
    .updating ⟨"/b", by decide, by decide, by decide⟩ v ::
      repeating n

theorem accepted_crowded (hv : v.utf8ByteSize = 2 ^ 25) (n : Nat) : Accepted (crowded v n) := by
  have hlarge : Frame.largestBody = 2 ^ 26 := rfl
  intro b hb
  rcases List.mem_cons.1 hb with rfl | hb
  · refine ⟨rfl, fits_updating ?_⟩
    rw [hv, hlarge]
    decide
  · rcases List.mem_cons.1 hb with rfl | hb
    · refine ⟨rfl, fits_updating ?_⟩
      rw [hv, hlarge]
      decide
    · exact accepted_repeating n b hb

theorem contents_crowded (hv : v.utf8ByteSize = 2 ^ 25) (n : Nat) :
    (Committed.empty.applyAll (numbered 0 (crowded v n))).contents.toList =
      [("/a", v), ("/b", v), ("/c", "v")] := by
  rw [contents_numbered (accepted_crowded hv n), crowded, List.foldl_cons, List.foldl_cons,
    foldl_repeating, writeTo_updating, writeTo_updating]
  rfl

/-- Two values of half the size of a frame do not fit one frame. -/
theorem large_crowded (hv : v.utf8ByteSize = 2 ^ 25) (n : Nat) :
    Frame.largestBody < Frame.overhead +
      (Committed.empty.applyAll (numbered 0 (crowded v n))).snapshot.packedSize := by
  -- each of the two values takes half of what a frame holds
  have hvalue := Change.utf8ByteSize_le_textSize v
  rw [Committed.snapshot_eq, contents_crowded hv n]
  simp only [Change.packedSize, Change.putSize, List.map_cons, List.map_nil, List.sum_cons,
    List.sum_nil]
  unfold Frame.largestBody
  omega

theorem size_crowded (hv : v.utf8ByteSize = 2 ^ 25) (n : Nat) :
    (Committed.empty.applyAll (numbered 0 (crowded v n))).entries.size = 3 := by
  rw [Committed.size_eq, SortedMap.size, contents_crowded hv n]
  rfl

/-- All batches are acknowledged, and the store that they leave is refused. -/
theorem refused_of_crowded (hv : v.utf8ByteSize = 2 ^ 25) {n : Nat} (hn : 1021 ≤ n)
    (hroom : n + 3 < 2 ^ 64 - 1)
    (hopen : VersionedStore.openAt .empty "store" .standard = (d, .ok .firstStore))
    (settings : StorageSettings) :
    (∀ answer ∈ (firstStore.performAll d (crowded v n)).2.2, answer.toBool = true) ∧
      ∃ d' log replay,
        CommitLog.openAt (firstStore.performAll d (crowded v n)).2.1 "store" =
            (d', .ok (log, replay)) ∧
          VersionedStore.openAt (firstStore.performAll d (crowded v n)).2.1 "store" settings =
            (d', .error (.storage .largeSnapshot)) := by
  rcases synced_of_isFresh isFresh_empty hopen with ⟨hsynced, -, -⟩
  have hlength : (crowded v n).length = n + 3 := by
    simp [crowded, repeating]
  have hseq : firstStore.committed.seq.toNat = 0 := rfl
  rcases hsynced.replayed rfl (by decide) (crowded v n) (by omega) with
    ⟨hanswers, d₁, log, replay, hlog, hcommits⟩
  refine ⟨?_, d₁, log, replay, hlog, ?_⟩
  · intro answer hanswer
    -- each answer is that to an update that fits a frame
    have hbool := List.mem_map_of_mem (f := Except.toBool) hanswer
    rw [hanswers] at hbool
    rcases List.mem_map.1 hbool with ⟨b, hb, hfits⟩
    rw [← hfits, decide_eq_true ((accepted_crowded hv n) b hb).2, Bool.or_true]
  · have hreplayed : replay.commits = numbered 0 (crowded v n) := hcommits
    have hneeded : needsCompaction log (Committed.empty.applyAll replay.commits) = true := by
      rw [needsCompaction_iff hlog, hreplayed, length_numbered (accepted_crowded hv n), hlength,
        size_crowded hv n, compactFrom]
      omega
    refine openAt_refused hlog settings hneeded ?_
    rw [hreplayed]
    exact Nat.not_le.2 (large_crowded hv n)

theorem exists_text (n : Nat) : ∃ v : String, v.utf8ByteSize = n := by
  induction n with
  | zero => exact ⟨"", rfl⟩
  | succ n ih =>
      rcases ih with ⟨v, hv⟩
      exact ⟨v.push 'x', by rw [String.utf8ByteSize_push, hv]; rfl⟩

/-- An intact log whose commits were all acknowledged, and a store that is refused. -/
theorem exists_refused :
    ∃ (d d' : Disk) (log : CommitLog) (replay : Replay) (batches : List Batch),
      VersionedStore.openAt .empty "store" .standard = (d, .ok .firstStore) ∧
        (∀ answer ∈ (firstStore.performAll d batches).2.2, answer.toBool = true) ∧
        CommitLog.openAt (firstStore.performAll d batches).2.1 "store" = (d', .ok (log, replay)) ∧
        VersionedStore.openAt (firstStore.performAll d batches).2.1 "store" .standard =
          (d', .error (.storage .largeSnapshot)) := by
  rcases exists_text (2 ^ 25) with ⟨v, hv⟩
  rcases openAt_firstStore with ⟨d, hopen⟩
  rcases refused_of_crowded hv (Nat.le_refl 1021) (by decide) hopen .standard with
    ⟨hanswers, d', log, replay, hlog, hrefused⟩
  exact ⟨d, d', log, replay, crowded v 1021, hopen, hanswers, hlog, hrefused⟩

end VersionedStore
end GuardedStore
