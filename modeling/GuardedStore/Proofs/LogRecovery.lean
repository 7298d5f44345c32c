import GuardedStore.Log.Replay
import GuardedStore.Proofs.FrameScan
import GuardedStore.Proofs.PackedChange

/-!
# LogRecovery — what a written log says

A log that was written by adding commits is its header and their frames, `logBytes`.  The commits
are in ascending order and each of them fits a frame (`Ascending`).  Such a log is replayed as
exactly these commits, also if a part of one more frame follows them, which is cut off
(`recover_logBytes`).
-/

namespace GuardedStore
namespace Log

open Bytes

variable {path : String} {last seq : UInt64} {change : Change}
  {commits more : List (UInt64 × Change)} {torn : ByteArray}

/-- The frame of a commit. -/
def frameOf (commit : UInt64 × Change) : Frame := ⟨commit.1, commit.2.pack⟩

/-- Whether a change fits a frame. -/
def Change.Fits (change : Change) : Prop := Frame.overhead + change.packedSize ≤ Frame.largestBody

instance (change : Change) : Decidable change.Fits :=
  inferInstanceAs (Decidable (_ ≤ _))

theorem bodySize_frameOf (commit : UInt64 × Change) :
    (frameOf commit).bodySize = Frame.overhead + commit.2.packedSize := by
  rw [Frame.bodySize, frameOf, Change.size_pack]

theorem size_header : header.size = headerSize := by
  simp [header, headerSize, ByteArray.size_append]

/-- The bytes of a log with some commits. -/
def logBytes (commits : List (UInt64 × Change)) : ByteArray :=
  header ++ Scan.joined (commits.map frameOf)

theorem size_logBytes (commits : List (UInt64 × Change)) :
    (logBytes commits).size = headerSize + (Scan.joined (commits.map frameOf)).size := by
  rw [logBytes, ByteArray.size_append, size_header]

/-- A log has a header, so it is not taken for a new one. -/
theorem size_logBytes_ne_zero (commits : List (UInt64 × Change)) : (logBytes commits).size ≠ 0 := by
  rw [size_logBytes]
  unfold headerSize
  omega

theorem logBytes_append (commits more : List (UInt64 × Change)) :
    logBytes (commits ++ more) = logBytes commits ++ Scan.joined (more.map frameOf) := by
  simp [logBytes, Scan.joined, concat_append, ByteArray.append_assoc]

/-- One more commit is one more frame. -/
theorem logBytes_concat (commits : List (UInt64 × Change)) (commit : UInt64 × Change) :
    logBytes (commits ++ [commit]) = logBytes commits ++ (frameOf commit).encoded := by
  simp [logBytes_append, Scan.joined]

/-! ## Commits in order -/

theorem toNat_next {seq : UInt64} (hroom : seq.toNat + 1 < 2 ^ 64) :
    (seq + 1).toNat = seq.toNat + 1 := by
  rw [UInt64.toNat_add, UInt64.toNat_one, Nat.mod_eq_of_lt hroom]

/-- The next number is greater, as long as there is one. -/
theorem lt_next {seq : UInt64} (hroom : seq.toNat + 1 < 2 ^ 64) : seq < seq + 1 := by
  rw [UInt64.lt_iff_toNat_lt, toNat_next hroom]
  exact Nat.lt_succ_self _

theorem lastOf_cons (before : UInt64) (commit : UInt64 × Change) (rest : List (UInt64 × Change)) :
    Replay.lastOf before (commit :: rest) = Replay.lastOf commit.1 rest := by
  unfold Replay.lastOf
  rw [List.getLast?_cons]
  cases rest.getLast? <;> rfl

/-- Commits that each fit a frame and have ascending numbers, all greater than `last`. -/
inductive Ascending : UInt64 → List (UInt64 × Change) → Prop where
  | nil (last : UInt64) : Ascending last []
  | cons {last seq : UInt64} {change : Change} {rest : List (UInt64 × Change)} :
      last < seq → change.Fits → Ascending seq rest → Ascending last ((seq, change) :: rest)

namespace Ascending

theorem fits {commit : UInt64 × Change} (h : Ascending last commits) (hmem : commit ∈ commits) :
    commit.2.Fits := by
  induction h with
  | nil => cases hmem
  | cons _ hfits _ ih =>
      rcases List.mem_cons.1 hmem with rfl | hmem
      · exact hfits
      · exact ih hmem

/-- A commit can be added behind the last one. -/
theorem concat (h : Ascending last commits) (hseq : Replay.lastOf last commits < seq)
    (hfits : change.Fits) : Ascending last (commits ++ [(seq, change)]) := by
  induction h with
  | nil last => exact .cons hseq hfits (.nil seq)
  | cons hlt hfit _ ih =>
      rw [lastOf_cons] at hseq
      exact .cons hlt hfit (ih hseq)

end Ascending

/-- Commits whose numbers increase, all greater than `last`. -/
def Increasing (last : UInt64) (commits : List (UInt64 × Change)) : Prop :=
  (last :: commits.map Prod.fst).Pairwise (· < ·)

namespace Increasing

theorem nil (last : UInt64) : Increasing last [] := List.pairwise_singleton _ _

theorem cons (hlt : last < seq) (h : Increasing seq commits) :
    Increasing last ((seq, change) :: commits) := by
  unfold Increasing at h ⊢
  rw [List.map_cons, List.pairwise_cons]
  refine ⟨?_, h⟩
  intro n hn
  rcases List.mem_cons.1 hn with rfl | hn
  · exact hlt
  · exact UInt64.lt_trans hlt ((List.pairwise_cons.1 h).1 n hn)

theorem tail (h : Increasing last ((seq, change) :: commits)) :
    last < seq ∧ Increasing seq commits := by
  rcases List.pairwise_cons.1 h with ⟨hlt, hrest⟩
  exact ⟨hlt seq (by simp), hrest⟩

theorem lt_of_mem {commit : UInt64 × Change} (h : Increasing last commits)
    (hmem : commit ∈ commits) : last < commit.1 :=
  (List.pairwise_cons.1 h).1 commit.1 (List.mem_map_of_mem hmem)

theorem le_lastOf (h : Increasing last commits) : last ≤ Replay.lastOf last commits := by
  induction commits generalizing last with
  | nil => exact UInt64.le_refl last
  | cons commit commits ih =>
      rw [lastOf_cons]
      exact UInt64.le_trans (UInt64.le_of_lt h.tail.1) (ih h.tail.2)

/-- The later ones of some commits come after the last of the earlier ones. -/
theorem append_right (h : Increasing last (commits ++ more)) :
    Increasing (Replay.lastOf last commits) more := by
  induction commits generalizing last with
  | nil => exact h
  | cons commit commits ih =>
      have hrest := ih (tail h).2
      rw [lastOf_cons]
      exact hrest

theorem append_left (h : Increasing last (commits ++ more)) : Increasing last commits := by
  unfold Increasing at h ⊢
  rw [List.map_append, ← List.cons_append] at h
  exact (List.pairwise_append.1 h).1

end Increasing

theorem Ascending.increasing (h : Ascending last commits) : Increasing last commits := by
  induction h with
  | nil last => exact .nil last
  | cons hlt _ _ ih => exact .cons hlt ih

theorem Increasing.ascending (h : Increasing last commits)
    (hfits : ∀ commit ∈ commits, commit.2.Fits) : Ascending last commits := by
  induction commits generalizing last with
  | nil => exact .nil last
  | cons commit rest ih =>
      have hrest := ih h.tail.2 (fun commit hmem => hfits commit (by simp [hmem]))
      exact .cons h.tail.1 (hfits commit (by simp)) hrest

/-- Whatever is read of a log, its numbers increase. -/
theorem increasing_of_readCommits {frames : List (Frame × Nat)}
    (h : readCommits path last frames = .ok commits) : Increasing last commits := by
  induction frames generalizing last commits with
  | nil =>
      cases h
      exact .nil last
  | cons f frames ih =>
      unfold readCommits at h
      split at h
      · cases h
      · rename_i hseq
        split at h
        · cases h
        · split at h
          · cases h
          · rename_i rest hrest
            cases h
            exact .cons (UInt64.not_le.1 hseq) (ih hrest)

/-- What the acceptance of bytes says. -/
theorem recover_ok {bytes whole : ByteArray} {r : Replay}
    (h : recover path bytes = .ok (whole, r)) (hnonempty : bytes.size ≠ 0) :
    checkHeader path bytes = .ok () ∧
      readCommits path 0 (Scan.run bytes headerSize).frames = .ok r.commits ∧
        (Scan.run bytes headerSize).stop ≠ .corrupt := by
  unfold recover at h
  rw [if_neg hnonempty] at h
  split at h
  · cases h
  · rename_i found hreplay
    cases h
    unfold replay at hreplay
    split at hreplay
    · cases hreplay
    · rename_i hcheck
      simp only at hreplay
      split at hreplay
      · cases hreplay
      · rename_i commits hcommits
        split at hreplay
        · cases hreplay
        · rename_i hstop
          cases hreplay
          exact ⟨hcheck, hcommits, by simp [hstop]⟩
        · rename_i hstop
          cases hreplay
          exact ⟨hcheck, hcommits, by simp [hstop]⟩

theorem increasing_of_recover {bytes whole : ByteArray} {r : Replay}
    (h : recover path bytes = .ok (whole, r)) : Increasing 0 r.commits := by
  by_cases hsize : bytes.size = 0
  · rw [recover, if_pos hsize] at h
    cases h
    exact .nil 0
  · rcases recover_ok h hsize with ⟨-, hcommits, -⟩
    exact increasing_of_readCommits hcommits

/-! ## Replaying -/

theorem fits_frameOf (hfits : ∀ commit ∈ commits, commit.2.Fits) :
    ∀ f ∈ commits.map frameOf, f.bodySize ≤ Frame.largestBody := by
  intro f hf
  rcases List.mem_map.1 hf with ⟨commit, hmem, rfl⟩
  rw [bodySize_frameOf]
  exact hfits commit hmem

theorem unpack?_frameOf (commit : UInt64 × Change) (h : commit.2.Fits) :
    Change.unpack? (frameOf commit).payload = some commit.2 := by
  have hbound : Frame.largestBody < 2 ^ 32 := by decide
  unfold Change.Fits at h
  exact Change.unpack?_pack (at_self _) (by omega)

theorem readCommits_positions (h : Ascending last commits) (pos : Nat) :
    readCommits path last (Scan.positions pos (commits.map frameOf)) = .ok commits := by
  induction h generalizing pos with
  | nil => rfl
  | @cons last seq change rest hlt hfits _ ih =>
      -- each number is greater than the one before, and each payload is a change
      have hseq : ¬ (frameOf (seq, change)).seq ≤ last := UInt64.not_le.2 hlt
      have hrest := ih (pos + (frameOf (seq, change)).encoded.size)
      have hchange := unpack?_frameOf (seq, change) hfits
      simp only [List.map_cons, Scan.positions, readCommits, if_neg hseq, hchange]
      simp only [frameOf] at hrest ⊢
      simp only [hrest]

/-- Bytes that a log may start with. -/
structure IsHeader (head : ByteArray) : Prop where
  size : head.size = headerSize
  magic : natAt head 0 4 = magic
  version : natAt head 4 4 ≤ newestLogFormat

theorem isHeader_header : IsHeader header := by
  have hspan := at_self header
  have hmagic := hspan.left.natAt 0 4 (by simp)
  have hversion := hspan.right.natAt 0 4 (by simp)
  refine ⟨size_header, ?_, ?_⟩
  · have hsmall : magic < 256 ^ 4 := by decide
    simpa [natAt_ofNat_of_lt hsmall] using hmagic
  · have hsmall : newestLogFormat < 256 ^ 4 := by decide
    simp only [size_ofNat, Nat.zero_add, Nat.add_zero, natAt_ofNat_of_lt hsmall] at hversion
    exact Nat.le_of_eq hversion

theorem checkHeader_of_at {bytes head : ByteArray} (path : String) (hhead : IsHeader head)
    (hat : At bytes 0 head) : checkHeader path bytes = .ok () := by
  have hsize := hhead.size
  have hwithin := hat.within
  have hmagic := hat.natAt 0 4 (by rw [hsize]; decide)
  have hversion := hat.natAt 4 4 (by rw [hsize]; decide)
  rw [Nat.zero_add] at hmagic hversion
  unfold checkHeader
  rw [if_neg (by omega), if_neg (by simpa [hmagic] using hhead.magic)]
  simp only [hversion]
  rw [if_neg (Nat.not_lt.2 hhead.version)]

theorem checkHeader_append (path : String) (rest : ByteArray) :
    checkHeader path (header ++ rest) = .ok () := by
  -- the header stands in front of whatever follows
  have hspan := at_append_self .empty header rest
  rw [ByteArray.empty_append] at hspan
  exact checkHeader_of_at path isHeader_header hspan

/-- What may be left of a frame that was not written to its end, possibly nothing. -/
def Torn (torn : ByteArray) : Prop :=
  ∃ (f : Frame) (n : Nat), f.bodySize ≤ Frame.largestBody ∧ n < f.encoded.size ∧
    torn = f.encoded.extract 0 n

theorem torn_empty : Torn .empty := by
  refine ⟨⟨0, .empty⟩, 0, by decide, ?_, by simp⟩
  rw [Frame.size_encoded]
  omega

/-- Commits are read to their end, and then what is left of a frame. -/
theorem run_logBytes (hfits : ∀ commit ∈ commits, commit.2.Fits) (ht : Torn torn) :
    Scan.run (logBytes commits ++ torn) headerSize =
      ⟨Scan.positions headerSize (commits.map frameOf),
        if torn.size = 0 then .finished else .truncated⟩ := by
  rcases ht with ⟨f, n, hfit, hn, rfl⟩
  have hsize : (f.encoded.extract 0 n).size = n := by
    rw [ByteArray.size_extract]
    omega
  -- the frames stand behind the header, and what is left of one stands behind them
  have hframes : At (logBytes commits ++ f.encoded.extract 0 n) headerSize
      (Scan.joined (commits.map frameOf)) := by
    have hspan := at_append_self header (Scan.joined (commits.map frameOf)) (f.encoded.extract 0 n)
    rwa [size_header] at hspan
  have htail : At (logBytes commits ++ f.encoded.extract 0 n)
      (headerSize + (Scan.joined (commits.map frameOf)).size) (f.encoded.extract 0 n) := by
    have hspan := at_append_self (logBytes commits) (f.encoded.extract 0 n) .empty
    rwa [ByteArray.append_empty, size_logBytes] at hspan
  have hend : (logBytes commits ++ f.encoded.extract 0 n).size =
      headerSize + (Scan.joined (commits.map frameOf)).size + n := by
    rw [ByteArray.size_append, hsize, size_logBytes]
  rw [Scan.run_frames _ hframes (fits_frameOf hfits), hsize]
  -- if nothing is left of the frame, the bytes end where the frames do
  by_cases hzero : n = 0
  · have hdone : Step.read (logBytes commits ++ f.encoded.extract 0 n)
        (headerSize + (Scan.joined (commits.map frameOf)).size) = .finished :=
      Step.read_end (by omega)
    rw [Scan.run_of_finished hdone, if_pos hzero, List.append_nil]
  · have hcut := Scan.run_of_truncated (Step.read_torn htail hend (by omega) hn hfit)
    rw [hcut, if_neg hzero, List.append_nil]

/-- A log of commits is replayed as these commits.  What is left of one more frame is cut off. -/
theorem recover_logBytes (path : String) (h : Ascending 0 commits) (ht : Torn torn) :
    recover path (logBytes commits ++ torn) =
      .ok (logBytes commits,
        ⟨commits, Replay.lastOf 0 commits, (logBytes commits).size, torn.size⟩) := by
  have hstart : checkHeader path (logBytes commits ++ torn) = .ok () := by
    rw [logBytes, ByteArray.append_assoc]
    exact checkHeader_append path _
  have hstop := Scan.stopAt_positions headerSize (commits.map frameOf)
    (if torn.size = 0 then .finished else .truncated)
  have hnonempty : (logBytes commits ++ torn).size ≠ 0 := by
    have hwhole := size_logBytes_ne_zero commits
    rw [ByteArray.size_append]
    omega
  have hreplay : replay path (logBytes commits ++ torn) =
      .ok ⟨commits, Replay.lastOf 0 commits, (logBytes commits).size, torn.size⟩ := by
    simp only [replay, hstart, run_logBytes (fun _ => h.fits) ht, hstop, readCommits_positions h,
      ← size_logBytes]
    by_cases hzero : torn.size = 0
    · simp [hzero]
    · simp [hzero, ByteArray.size_append]
  unfold recover
  rw [if_neg hnonempty, hreplay]
  by_cases hzero : torn.size = 0
  · have hempty : torn = .empty := ByteArray.size_eq_zero_iff.1 hzero
    simp [hempty]
  · simp [hzero, ByteArray.extract_append_eq_left]

end Log
end GuardedStore
