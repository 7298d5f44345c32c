import GuardedStore.Log.Frame
import GuardedStore.Proofs.ByteSpans
import Mathlib.Tactic.SplitIfs

/-!
# FrameScan — reading what was written as frames

A frame that stands somewhere is read as that frame (`Step.read_frame`), and a proper part of one at
the end of the bytes is told apart from damage (`Step.read_torn`).  Reading on from frames that
stand one after the other yields all of them and then whatever comes next (`Scan.run_frames`).
-/

namespace GuardedStore
namespace Log

open Bytes

variable {bytes : ByteArray} {pos n : Nat} {f : Frame}

/-! ## The bytes of a frame -/

namespace Frame

/-- The bytes of a frame, however long it is. -/
def encoded (f : Frame) : ByteArray := sealed f.covered

@[simp] theorem size_covered (f : Frame) : f.covered.size = f.bodySize := by
  simp only [covered, ByteArray.size_append, size_ofNat, bodySize, overhead]

@[simp] theorem size_encoded (f : Frame) : f.encoded.size = 4 + f.bodySize := by
  simp only [encoded, sealed, ByteArray.size_append, size_ofNat, size_covered]
  omega

theorem encode?_of_fits (h : f.bodySize ≤ largestBody) : f.encode? = some f.encoded := by
  rw [encode?, if_neg (by omega)]
  rfl

theorem encode?_eq_some_iff {b : ByteArray} :
    f.encode? = some b ↔ f.bodySize ≤ largestBody ∧ f.encoded = b := by
  unfold encode?
  split_ifs with h
  · simp only [false_iff]
    intro hb
    omega
  · simp only [Option.some.injEq]
    exact ⟨fun hb => ⟨by omega, hb⟩, fun hb => hb.2⟩

theorem encode?_eq_none_iff : f.encode? = none ↔ largestBody < f.bodySize := by
  unfold encode?
  split_ifs with h
  · simpa using h
  · simpa using h

theorem natAt_length (hfit : f.bodySize ≤ largestBody) : natAt f.encoded 0 4 = f.bodySize := by
  have hspan : At f.encoded 0 (ofNat 4 f.bodySize) := (at_self f.encoded).left.left.left
  have hread := hspan.natAt 0 4 (by simp)
  have hsmall : f.bodySize < 256 ^ 4 := by
    have hbound : largestBody < 256 ^ 4 := by decide
    omega
  simpa [natAt_ofNat_of_lt hsmall] using hread

/-- The length in front of a frame, wherever it stands. -/
theorem natAt_length_of_at (hat : At bytes pos f.encoded) (hfit : f.bodySize ≤ largestBody) :
    natAt bytes pos 4 = f.bodySize := by
  have hread := hat.natAt 0 4 (by rw [size_encoded]; omega)
  rw [Nat.add_zero, natAt_length hfit] at hread
  exact hread

/-- The checksum behind a frame is that of the bytes in front of it. -/
theorem natAt_checksum_of_at (hat : At bytes pos f.encoded) :
    natAt bytes (pos + f.bodySize) 4 =
      (Digest.Crc32c.checksum bytes pos (pos + f.bodySize)).toNat := by
  have hcovered : At bytes pos f.covered := hat.left
  have hsum := hcovered.checksum
  have hread := hat.right.natAt 0 4 (by simp)
  rw [size_covered] at hsum hread
  rw [Nat.add_zero] at hread
  rw [hread, hsum, natAt_ofNat_of_lt]
  exact UInt32.toNat_lt _

end Frame

/-! ## One step -/

namespace Step

/-- A frame is read as itself, in front of anything. -/
theorem read_frame (hat : At bytes pos f.encoded) (hfit : f.bodySize ≤ Frame.largestBody) :
    read bytes pos = .frame f (pos + f.encoded.size) := by
  have hwithin := hat.within
  rw [Frame.size_encoded] at hwithin
  have hover : f.bodySize = 12 + f.payload.size := rfl
  have hlength := Frame.natAt_length_of_at hat hfit
  have hcrc := Frame.natAt_checksum_of_at hat
  have hcovered : At bytes pos f.covered := hat.left
  -- what is left to read are the number and the payload
  have hseq : UInt64.ofNat (natAt bytes (pos + 4) 8) = f.seq := by
    have hread := hcovered.left.right.natAt 0 8 (by simp)
    rw [size_ofNat, Nat.add_zero, natAt_ofNat_of_lt (UInt64.toNat_lt _)] at hread
    rw [hread, UInt64.ofNat_toNat]
  have hpayload : bytes.extract (pos + 12) (pos + f.bodySize) = f.payload := by
    have hslice := hcovered.right.extract_self
    simp only [ByteArray.size_append, size_ofNat] at hslice
    rw [hover]
    simpa [Nat.add_assoc] using hslice
  unfold read
  rw [if_neg (by omega), if_neg (by omega)]
  simp only [hlength, Frame.overhead]
  rw [if_neg (by omega), if_neg (by omega), if_neg (by simpa using hcrc), hseq, hpayload,
    Frame.size_encoded, Nat.add_assoc]

theorem read_end (h : bytes.size ≤ pos) : read bytes pos = .finished := by
  rw [read, if_pos h]

theorem at_initial {x : ByteArray} (hn : n ≤ x.size) : At x 0 (x.extract 0 n) := by
  -- an array is its beginning and the rest
  have hsplit : x.extract 0 n ++ x.extract n x.size = x := by
    rw [ByteArray.extract_append_extract]
    simp [Nat.max_eq_right hn]
  have hspan := at_append_self .empty (x.extract 0 n) (x.extract n x.size)
  rwa [ByteArray.empty_append, hsplit] at hspan

/-- A proper part of a frame at the end is taken for what is left of a frame, not for damage. -/
theorem read_torn (hat : At bytes pos (f.encoded.extract 0 n)) (hend : bytes.size = pos + n)
    (hpos : 0 < n) (hn : n < f.encoded.size) (hfit : f.bodySize ≤ Frame.largestBody) :
    read bytes pos = .truncated := by
  have hsize : (f.encoded.extract 0 n).size = n := by
    rw [ByteArray.size_extract]
    omega
  have hover : f.bodySize = 12 + f.payload.size := rfl
  rw [Frame.size_encoded] at hn
  unfold read
  rw [if_neg (by omega)]
  -- either not even the length is there, or more bytes are announced than there are
  split_ifs with hshort
  · rfl
  · have hlength : natAt bytes pos 4 = f.bodySize := by
      have hread := hat.natAt 0 4 (by omega)
      have hstart : At f.encoded 0 (f.encoded.extract 0 n) :=
        at_initial (by rw [Frame.size_encoded]; omega)
      have hwhole := hstart.natAt 0 4 (by omega)
      rw [Nat.add_zero] at hread hwhole
      rw [hread, ← hwhole, Frame.natAt_length hfit]
    simp only [hlength, Frame.overhead]
    rw [if_neg (by omega), if_pos (by omega)]

end Step

/-! ## Many steps -/

namespace Scan

/-- The bytes of frames one after the other. -/
def joined (frames : List Frame) : ByteArray := concat (frames.map Frame.encoded)

/-- Frames from a position on, each with the position after it. -/
def positions (pos : Nat) : List Frame → List (Frame × Nat)
  | [] => []
  | f :: rest => (f, pos + f.encoded.size) :: positions (pos + f.encoded.size) rest

/-- Frames one after the other are all read, and then what comes next. -/
theorem run_frames (frames : List Frame) (hat : At bytes pos (joined frames))
    (hfit : ∀ f ∈ frames, f.bodySize ≤ Frame.largestBody) :
    run bytes pos =
      ⟨positions pos frames ++ (run bytes (pos + (joined frames).size)).frames,
        (run bytes (pos + (joined frames).size)).stop⟩ := by
  induction frames generalizing pos with
  | nil => simp [joined, positions]
  | cons f frames ih =>
      simp only [joined, List.map_cons, concat_cons] at hat ⊢
      -- the first frame is read, and the others stand behind it
      have hstep := Step.read_frame hat.left (hfit f (by simp))
      have hrest := ih hat.right (fun g hg => hfit g (by simp [hg]))
      conv => lhs; unfold run
      split
      · rename_i h
        simp [hstep] at h
      · rename_i h
        simp [hstep] at h
      · rename_i h
        simp [hstep] at h
      · rename_i g next h
        rw [hstep] at h
        cases h
        simp only [hrest, joined, positions, ByteArray.size_append, List.cons_append, Nat.add_assoc]

theorem run_of_finished (h : Step.read bytes pos = .finished) :
    run bytes pos = ⟨[], .finished⟩ := by
  unfold run
  split <;> simp_all

theorem run_of_truncated (h : Step.read bytes pos = .truncated) :
    run bytes pos = ⟨[], .truncated⟩ := by
  unfold run
  split <;> simp_all

theorem run_of_corrupt (h : Step.read bytes pos = .corrupt) :
    run bytes pos = ⟨[], .corrupt⟩ := by
  unfold run
  split <;> simp_all

theorem stopAt_positions (pos : Nat) (frames : List Frame) (stop : Stop) :
    (⟨positions pos frames, stop⟩ : Scan).stopAt pos = pos + (joined frames).size := by
  -- the last position is where the frames end, or the start if there are none
  suffices h : ∀ pos fallback, fallback = pos →
      (((positions pos frames).getLast?).map (·.2)).getD fallback = pos + (joined frames).size from
    h pos pos rfl
  induction frames with
  | nil =>
      intro pos fallback hfallback
      simp [positions, joined, hfallback]
  | cons f frames ih =>
      intro pos fallback _
      have hrest := ih (pos + f.encoded.size) (pos + f.encoded.size) rfl
      have hlast : ((positions pos (f :: frames)).getLast?.map (·.2)).getD fallback =
          ((positions (pos + f.encoded.size) frames).getLast?.map (·.2)).getD
            (pos + f.encoded.size) := by
        rw [positions, List.getLast?_cons]
        cases (positions (pos + f.encoded.size) frames).getLast? <;> simp
      rw [hlast, hrest]
      simp [joined, ByteArray.size_append, Nat.add_assoc]

end Scan
end Log
end GuardedStore
