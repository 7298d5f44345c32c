import GuardedStore.Proofs.FrameSequences
import GuardedStore.Proofs.LogDamage

/-!
# BoundedDamage — damage that is always found

A frame is spoiled if up to four bytes in a row were changed between its length and its checksum,
or any of the four bytes of the checksum itself.  Whatever stands in front of such a frame and
behind it, it is not read as one (`Step.read_of_spoiled`).  So all frames in front are read, and
the reading stops where the damage begins.
-/

namespace GuardedStore
namespace Log

open Bytes

variable {f : Frame} {whole spoiled front : ByteArray} {earlier : List Frame}

/-- Some of the bytes that were written for a frame were changed: either at most four in a row
behind the length, the first four bytes, and in front of the checksum, the last four, or bytes of
the checksum only. -/
inductive Spoiled (whole spoiled : ByteArray) : Prop
  | body (k : Nat) (hlength : 4 ≤ k) (hchecksum : k + 4 + 4 ≤ whole.size)
      (haltered : Altered whole spoiled k 4)
  | checksum (k : Nat) (hend : k + 4 = whole.size) (haltered : Altered whole spoiled k 4)

theorem Step.read_of_spoiled (hwhole : f.encode? = some whole) (hspoiled : Spoiled whole spoiled)
    (front rest : ByteArray) : read (front ++ spoiled ++ rest) front.size = .corrupt := by
  rcases Frame.encode?_eq_some_iff.1 hwhole with ⟨hfit, rfl⟩
  have hat := at_append_self front f.encoded rest
  have hsize := Frame.size_encoded f
  cases hspoiled with
  | body k hlength hchecksum haltered =>
      exact read_of_altered hat hfit (haltered.append front rest) (by omega)
        (Or.inl ⟨Nat.le_refl 4, by omega⟩)
  | checksum k hend haltered =>
      have hover : f.bodySize = 12 + f.payload.size := rfl
      exact read_of_altered hat hfit (haltered.append front rest) (by omega)
        (Or.inr ⟨by omega, by omega⟩)

namespace Scan

/-- A spoiled frame is found wherever it stands, whatever follows it.  The frames in front of it are
read and nothing else, and no more than their bytes are consumed. -/
theorem corrupt_of_spoiled (hwhole : f.encode? = some whole) (hspoiled : Spoiled whole spoiled)
    (hfront : encodeAll? earlier = some front) (rest : ByteArray) :
    Step.read (front ++ spoiled ++ rest) front.size = .corrupt ∧
      (run (front ++ spoiled ++ rest) 0).stop = .corrupt ∧
      (run (front ++ spoiled ++ rest) 0).frames.map Prod.fst = earlier ∧
      (run (front ++ spoiled ++ rest) 0).stopAt 0 = front.size := by
  have hread := Step.read_of_spoiled hwhole hspoiled front rest
  rcases encodeAll?_eq_some_iff.1 hfront with ⟨hfit, rfl⟩
  have hat := (at_self (joined earlier ++ spoiled ++ rest)).left.left
  have hrun := run_frames earlier hat hfit
  rw [Nat.zero_add, run_of_corrupt hread, List.append_nil] at hrun
  rw [hrun]
  exact ⟨hread, rfl, map_fst_positions 0 earlier, by rw [stopAt_positions, Nat.zero_add]⟩

/-- A frame with one changed byte in its payload, behind another frame. -/
theorem corrupt_of_spoiled_payload :
    ∃ (first second : Frame) (front whole spoiled : ByteArray),
      second.encode? = some whole ∧ Spoiled whole spoiled ∧ encodeAll? [first] = some front ∧
        ∀ rest, Step.read (front ++ spoiled ++ rest) front.size = .corrupt ∧
          (run (front ++ spoiled ++ rest) 0).stop = .corrupt ∧
          (run (front ++ spoiled ++ rest) 0).frames.map Prod.fst = [first] ∧
          (run (front ++ spoiled ++ rest) 0).stopAt 0 = front.size := by
  have hwhole : (⟨2, "abcd".toUTF8⟩ : Frame).encode? = some (⟨2, "abcd".toUTF8⟩ : Frame).encoded :=
    Frame.encode?_of_fits (by decide)
  have hfront : encodeAll? [⟨1, "first".toUTF8⟩] = some (joined [⟨1, "first".toUTF8⟩]) :=
    encodeAll?_eq_some_iff.2 ⟨by decide, rfl⟩
  have hbyte : (120 : UInt8) ≠ byteAt (⟨2, "abcd".toUTF8⟩ : Frame).encoded 13 := by decide
  rcases exists_differ (by decide) hbyte with ⟨spoiled, hdiffer, -⟩
  have hspoiled : Spoiled (⟨2, "abcd".toUTF8⟩ : Frame).encoded spoiled :=
    .body 12 (by decide) (by decide) (hdiffer.altered.mono (by decide) (by decide) (by decide))
  exact ⟨_, _, _, _, spoiled, hwhole, hspoiled, hfront, corrupt_of_spoiled hwhole hspoiled hfront⟩

end Scan
end Log
end GuardedStore
