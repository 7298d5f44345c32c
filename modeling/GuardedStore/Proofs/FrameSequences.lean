import GuardedStore.Proofs.FrameFormat
import Mathlib.Order.Bounds.Defs

/-!
# FrameSequences — bytes that are frames one after the other

`encodeAll?` writes a list of frames.  What it writes is read as that list and as no other, and
bytes that are read to their end are what it writes for the frames that were read
(`encodeAll?_eq_some_iff_run`).  Whatever the bytes are, the reading comes as far as they can be
taken for frames at all (`isGreatest_stopAt`).
-/

namespace GuardedStore
namespace Log

open Bytes

variable {bytes : ByteArray} {pos : Nat} {frames : List Frame}

namespace Frame

/-- A frame can be written unless its payload is too long. -/
theorem exists_encode?_iff (f : Frame) :
    (∃ part, f.encode? = some part) ↔ f.payload.size ≤ 64 * 1024 * 1024 - 12 := by
  have hbody : f.bodySize = 12 + f.payload.size := rfl
  have hmost : largestBody = 64 * 1024 * 1024 := rfl
  simp only [encode?_eq_some_iff, exists_and_left, exists_eq', and_true]
  omega

end Frame

namespace Scan

/-! ## Writing frames -/

/-- The bytes of frames one after the other, if none of them is too long. -/
def encodeAll? : List Frame → Option ByteArray
  | [] => some .empty
  | f :: rest => do
    let first ← f.encode?
    let others ← encodeAll? rest
    return first ++ others

theorem encodeAll?_eq_some_iff :
    encodeAll? frames = some bytes ↔
      (∀ f ∈ frames, f.bodySize ≤ Frame.largestBody) ∧ joined frames = bytes := by
  induction frames generalizing bytes with
  | nil => simp [encodeAll?]
  | cons f frames ih =>
      simp only [encodeAll?, Option.bind_eq_bind, Option.bind_eq_some_iff, Option.pure_def,
        Option.some.injEq, Frame.encode?_eq_some_iff, ih, List.forall_mem_cons, joined_cons]
      constructor
      · rintro ⟨_, ⟨hfirst, rfl⟩, _, ⟨hothers, rfl⟩, hbytes⟩
        exact ⟨⟨hfirst, hothers⟩, hbytes⟩
      · rintro ⟨⟨hfirst, hothers⟩, hbytes⟩
        exact ⟨_, ⟨hfirst, rfl⟩, _, ⟨hothers, rfl⟩, hbytes⟩

/-! ## Positions -/

theorem map_fst_positions (pos : Nat) (frames : List Frame) :
    (positions pos frames).map Prod.fst = frames := by
  induction frames generalizing pos with
  | nil => rfl
  | cons f frames ih => rw [positions, List.map_cons, ih]

/-! ## Reading frames -/

namespace Reads

theorem stopAt (h : Reads bytes pos frames) :
    (run bytes pos).stopAt pos = pos + (joined frames).size := by
  have hrun : run bytes pos = ⟨positions pos frames, (run bytes pos).stop⟩ := by rw [← h.read]
  rw [hrun, stopAt_positions]

theorem map_fst (h : Reads bytes pos frames) : (run bytes pos).frames.map Prod.fst = frames := by
  rw [h.read, map_fst_positions]

/-- The bytes that were read are those of the frames. -/
theorem extract (h : Reads bytes 0 frames) :
    bytes.extract 0 ((run bytes 0).stopAt 0) = joined frames := by
  rw [h.stopAt]
  exact h.stand.extract_self

/-- The reading ends without an error where the bytes end. -/
theorem finished_iff (h : Reads bytes pos frames) :
    (run bytes pos).stop = .finished ↔ bytes.size ≤ (run bytes pos).stopAt pos := by
  rw [← Step.read_eq_finished_iff, h.stopAt, h.stop]
  cases (run bytes pos).stop <;> simp [Stop.step]

end Reads

/-- Frames that stand at a position are the first ones that are read from there. -/
theorem exists_reads_of_at (hat : At bytes pos (joined frames))
    (hfit : ∀ f ∈ frames, f.bodySize ≤ Frame.largestBody) :
    ∃ rest, Reads bytes pos (frames ++ rest) := by
  induction frames generalizing pos with
  | nil => exact run_eq bytes (by simpa using hat.within)
  | cons f frames ih =>
      rw [joined_cons] at hat
      rw [List.forall_mem_cons] at hfit
      rcases ih hat.right hfit.2 with ⟨rest, hrest⟩
      exact ⟨rest, hrest.cons (Step.read_frame hat.left hfit.1)⟩

/-- Frames are read to the end exactly from the bytes that are written for them. -/
theorem encodeAll?_eq_some_iff_run :
    encodeAll? frames = some bytes ↔
      (run bytes 0).stop = .finished ∧ (run bytes 0).frames.map Prod.fst = frames := by
  rw [encodeAll?_eq_some_iff]
  constructor
  · rintro ⟨hfit, rfl⟩
    rcases exists_reads_of_at (at_self _) hfit with ⟨rest, hreads⟩
    have hwithin := hreads.stand.within
    have hleast := length_le_size_joined rest
    rw [joined_append, ByteArray.size_append] at hwithin
    -- there is no room for more frames
    obtain rfl : rest = [] := by
      unfold leastFrame at hleast
      exact List.eq_nil_of_length_eq_zero (by omega)
    rw [List.append_nil] at hreads
    refine ⟨hreads.finished_iff.2 ?_, hreads.map_fst⟩
    rw [hreads.stopAt, Nat.zero_add]
  · rintro ⟨hfinished, rfl⟩
    rcases run_eq bytes (Nat.zero_le _) with ⟨frames, hreads⟩
    have hend := hreads.finished_iff.1 hfinished
    have hwithin := hreads.stand.within
    have hextract := hreads.extract
    rw [hreads.stopAt] at hend hextract
    rw [hreads.map_fst]
    refine ⟨hreads.fit, ?_⟩
    rw [← hextract, Nat.le_antisymm hwithin hend, ByteArray.extract_zero_size]

/-- The reading comes as far as the bytes are frames. -/
theorem isGreatest_stopAt (bytes : ByteArray) :
    IsGreatest {n | n ≤ bytes.size ∧ ∃ frames, encodeAll? frames = some (bytes.extract 0 n)}
      ((run bytes 0).stopAt 0) := by
  rcases run_eq bytes (Nat.zero_le _) with ⟨frames, hreads⟩
  constructor
  · refine ⟨?_, frames, ?_⟩
    · rw [hreads.stopAt]
      exact hreads.stand.within
    · rw [hreads.extract, encodeAll?_eq_some_iff]
      exact ⟨hreads.fit, rfl⟩
  · rintro n ⟨hn, others, hothers⟩
    rcases encodeAll?_eq_some_iff.1 hothers with ⟨hfit, hjoined⟩
    have hat : At bytes 0 (joined others) := by
      rw [hjoined]
      exact at_extract (Nat.zero_le _) hn
    rcases exists_reads_of_at hat hfit with ⟨rest, hmore⟩
    rw [hmore.stopAt, joined_append, hjoined, ByteArray.size_append, size_extract_of_le hn]
    omega

/-- The format of frames is exact: from some bytes a list of frames is read to the end exactly if
the bytes are what is written for the frames, which is when all bytes are consumed.  In any case
what is consumed is the longest beginning of the bytes that is written for some frames, and these
are the frames that are read.  All payloads up to the greatest length can be written. -/
theorem exact_of_run (bytes : ByteArray) :
    (∀ frames, (run bytes 0).stop = .finished ∧ (run bytes 0).frames.map Prod.fst = frames ↔
      encodeAll? frames = some bytes) ∧
    ((run bytes 0).stop = .finished ↔ (run bytes 0).stopAt 0 = bytes.size) ∧
    IsGreatest {n | n ≤ bytes.size ∧ ∃ frames, encodeAll? frames = some (bytes.extract 0 n)}
      ((run bytes 0).stopAt 0) ∧
    encodeAll? ((run bytes 0).frames.map Prod.fst) =
      some (bytes.extract 0 ((run bytes 0).stopAt 0)) ∧
    ∀ f : Frame, (∃ part, f.encode? = some part) ↔ f.payload.size ≤ 64 * 1024 * 1024 - 12 := by
  rcases run_eq bytes (Nat.zero_le _) with ⟨frames, hreads⟩
  refine ⟨fun _ => encodeAll?_eq_some_iff_run.symm, ?_, isGreatest_stopAt bytes, ?_,
    Frame.exists_encode?_iff⟩
  · rw [hreads.finished_iff]
    exact ⟨Nat.le_antisymm (isGreatest_stopAt bytes).1.1, Nat.le_of_eq ∘ Eq.symm⟩
  · rw [hreads.map_fst, hreads.extract, encodeAll?_eq_some_iff]
    exact ⟨hreads.fit, rfl⟩

end Scan
end Log
end GuardedStore
