import GuardedStore.Proofs.LogDamage

/-!
# FrameFormat — whatever is read as a frame is one

`FrameScan` says that a frame is read as itself.  Here is the other direction: bytes that are read
as a frame are the bytes of that frame and of no other (`Step.of_read_frame`), and the reading stops
before the end only at the beginning of a frame that is not there as a whole, or at something that
cannot be a frame (`Step.read_eq_truncated_iff`).

So the bytes that are read from a position on are frames one after the other, and what comes next is
told by how the reading stopped (`Scan.run_eq`).  The reading of frames ends after a number of steps
that the bytes bound (`Scan.length_run_le`).
-/

namespace GuardedStore
namespace Bytes

variable {bytes a b : ByteArray} {pos width i j : Nat}

theorem natAt_lt (bytes : ByteArray) (pos width : Nat) : natAt bytes pos width < 256 ^ width := by
  induction width with
  | zero => simp [natAt]
  | succ width ih =>
      have hbyte := (byteAt bytes (pos + width)).toNat_lt
      rw [natAt, Nat.pow_succ]
      omega

/-! ## Spans that are put together -/

namespace At

theorem append (ha : At bytes pos a) (hb : At bytes (pos + a.size) b) : At bytes pos (a ++ b) := by
  have hwithin := hb.within
  refine ⟨by rw [ByteArray.size_append]; omega, ?_⟩
  intro i hi
  rw [ByteArray.size_append] at hi
  -- the byte belongs to the first part or to the second one
  rcases Nat.lt_or_ge i a.size with hfront | hback
  · rw [byteAt_append_left hfront, ha.agree i hfront]
  · rcases Nat.exists_eq_add_of_le hback with ⟨k, rfl⟩
    rw [byteAt_append_right, ← Nat.add_assoc, hb.agree k (by omega)]

theorem push (h : At bytes pos a) (hmore : pos + a.size < bytes.size) :
    At bytes pos (a.push (byteAt bytes (pos + a.size))) := by
  refine ⟨by rw [ByteArray.size_push]; omega, ?_⟩
  intro i hi
  rw [ByteArray.size_push] at hi
  -- the byte is an old one or the new one
  rcases Nat.lt_succ_iff_lt_or_eq.1 hi with hold | rfl
  · rw [h.agree i hold]
    simp only [byteAt_eq, toList_push]
    rw [List.getElem?_append_left (by simpa using hold)]
  · exact (byteAt_push _).symm

end At

theorem at_empty (hpos : pos ≤ bytes.size) : At bytes pos .empty := by
  refine ⟨by simpa using hpos, ?_⟩
  intro i hi
  simp at hi

theorem size_extract_of_le (hj : j ≤ bytes.size) : (bytes.extract pos j).size = j - pos := by
  rw [ByteArray.size_extract, Nat.min_eq_left hj]

theorem byteAt_extract (hi : i < j - pos) (hj : j ≤ bytes.size) :
    byteAt (bytes.extract pos j) i = byteAt bytes (pos + i) := by
  have hin : i < (bytes.extract pos j).size := by rwa [size_extract_of_le hj]
  rw [byteAt, dif_pos hin, byteAt, dif_pos (by omega)]
  exact ByteArray.getElem_extract hin

theorem at_extract (hpos : pos ≤ j) (hj : j ≤ bytes.size) : At bytes pos (bytes.extract pos j) := by
  refine ⟨by rw [size_extract_of_le hj]; omega, ?_⟩
  intro i hi
  rw [size_extract_of_le hj] at hi
  exact (byteAt_extract hi hj).symm

/-- One more byte of a number is the last of those that it is written in. -/
theorem ofNat_natAt_succ (bytes : ByteArray) (pos width : Nat) :
    ofNat (width + 1) (natAt bytes pos (width + 1)) =
      (ofNat width (natAt bytes pos width)).push (byteAt bytes (pos + width)) := by
  have hbyte := (byteAt bytes (pos + width)).toNat_lt
  have hfront : natAt bytes pos (width + 1) / 256 = natAt bytes pos width := by
    rw [natAt]
    omega
  have hlast : natAt bytes pos (width + 1) % 256 = (byteAt bytes (pos + width)).toNat := by
    rw [natAt]
    omega
  rw [ofNat, hfront, hlast, UInt8.ofNat_toNat]

/-- The bytes of a number are those that it is read from. -/
theorem at_ofNat_natAt (hwithin : pos + width ≤ bytes.size) :
    At bytes pos (ofNat width (natAt bytes pos width)) := by
  induction width with
  | zero => exact at_empty hwithin
  | succ width ih =>
      have hmore : pos + (ofNat width (natAt bytes pos width)).size < bytes.size := by
        rw [size_ofNat]
        exact hwithin
      have hpush := (ih (Nat.le_of_succ_le hwithin)).push hmore
      rw [size_ofNat] at hpush
      rw [ofNat_natAt_succ]
      exact hpush

end Bytes

namespace Log

open Bytes

variable {bytes : ByteArray} {pos next : Nat} {f : Frame}

/-! ## One step -/

/-- The frame at a position, as long as its length says. -/
def Frame.readAt (bytes : ByteArray) (pos : Nat) : Frame :=
  ⟨UInt64.ofNat (natAt bytes (pos + 4) 8), bytes.extract (pos + 12) (pos + natAt bytes pos 4)⟩

section
variable (hleast : Frame.overhead ≤ natAt bytes pos 4)
  (hwithin : pos + 4 + natAt bytes pos 4 ≤ bytes.size)

include hleast hwithin

theorem Frame.bodySize_readAt : (Frame.readAt bytes pos).bodySize = natAt bytes pos 4 := by
  have hpayload : (Frame.readAt bytes pos).payload.size = natAt bytes pos 4 - 12 := by
    simp only [Frame.readAt, ByteArray.size_extract]
    omega
  unfold Frame.overhead at hleast
  rw [Frame.bodySize, hpayload, Frame.overhead]
  omega

/-- Length, number and payload of the frame stand one behind the other. -/
theorem Frame.at_covered_readAt : At bytes pos (Frame.readAt bytes pos).covered := by
  have hseq : (Frame.readAt bytes pos).seq.toNat = natAt bytes (pos + 4) 8 :=
    UInt64.toNat_ofNat_of_lt (natAt_lt bytes (pos + 4) 8)
  have hlength : At bytes pos (ofNat 4 (natAt bytes pos 4)) := at_ofNat_natAt (by omega)
  unfold Frame.overhead at hleast
  have hnumber : At bytes (pos + 4) (ofNat 8 (natAt bytes (pos + 4) 8)) :=
    at_ofNat_natAt (by omega)
  have hpayload : At bytes (pos + 12) (Frame.readAt bytes pos).payload :=
    at_extract (by omega) (by omega)
  rw [Frame.covered, Frame.bodySize_readAt hleast hwithin, hseq]
  refine (hlength.append ?_).append ?_
  · simpa only [size_ofNat] using hnumber
  · simpa only [ByteArray.size_append, size_ofNat] using hpayload

end

namespace Step

/-- What stands where a frame is read are the bytes of that frame. -/
theorem of_read_frame (h : read bytes pos = .frame f next) :
    At bytes pos f.encoded ∧ f.bodySize ≤ Frame.largestBody ∧ next = pos + f.encoded.size := by
  unfold read at h
  simp only at h
  split_ifs at h with hend hshort hlength hover hcrc
  rcases not_or.1 hlength with ⟨hleast, hmost⟩
  have hleast : Frame.overhead ≤ natAt bytes pos 4 := Nat.le_of_not_lt hleast
  have hwithin : pos + 4 + natAt bytes pos 4 ≤ bytes.size := by omega
  have hbody := Frame.bodySize_readAt hleast hwithin
  have hcovered := Frame.at_covered_readAt hleast hwithin
  injection h with hf hnext
  change Frame.readAt bytes pos = f at hf
  subst hf hnext
  refine ⟨hcovered.append ?_, ?_, ?_⟩
  · -- the checksum that is read is that of the bytes in front of it
    have hsum := hcovered.checksum
    rw [Frame.size_covered, hbody] at hsum ⊢
    rw [← hsum, ← of_not_not hcrc]
    exact at_ofNat_natAt (by omega)
  · rw [hbody]
    exact Nat.le_of_not_lt hmost
  · rw [Frame.size_encoded, hbody, Nat.add_assoc]

end Step

/-- The beginning of a frame that is not there as a whole: fewer bytes than a length has, or a
length that a frame may have and fewer bytes behind it. -/
def Unfinished (torn : ByteArray) : Prop :=
  torn.size < 4 ∨
    Frame.IsLength (Frame.announced torn 0) ∧ torn.size < 4 + Frame.announced torn 0

theorem unfinished_empty : Unfinished .empty := .inl (by decide)

namespace Step

theorem read_eq_finished_iff : read bytes pos = .finished ↔ bytes.size ≤ pos := by
  constructor
  · intro h
    unfold read at h
    split at h
    · assumption
    · simp only at h
      split_ifs at h
  · exact read_end

/-- The bytes end in the middle of a frame exactly if an unfinished one is left of them. -/
theorem read_eq_truncated_iff (hpos : pos ≤ bytes.size) :
    read bytes pos = .truncated ↔
      pos < bytes.size ∧ Unfinished (bytes.extract pos bytes.size) := by
  have hrest : At bytes pos (bytes.extract pos bytes.size) := at_extract hpos (Nat.le_refl _)
  have hsize : (bytes.extract pos bytes.size).size = bytes.size - pos :=
    size_extract_of_le (Nat.le_refl _)
  -- the length that is read is the one in front of what is left
  have hlength : 4 ≤ bytes.size - pos →
      natAt bytes pos 4 = natAt (bytes.extract pos bytes.size) 0 4 := by
    intro hfour
    simpa using hrest.natAt 0 4 (by omega)
  unfold Unfinished Frame.IsLength Frame.announced
  constructor
  · intro h
    unfold read at h
    simp only at h
    split_ifs at h with hend hshort hbody hover
    · exact ⟨by omega, Or.inl (by omega)⟩
    · rw [← hlength (by omega)]
      exact ⟨by omega, Or.inr ⟨by omega, by omega⟩⟩
  · rintro ⟨hmore, hshort | ⟨hbody, hover⟩⟩
    · rw [read, if_neg (by omega), if_pos (by omega)]
    · rcases Nat.lt_or_ge (bytes.size - pos) 4 with hshort | hfour
      · rw [read, if_neg (by omega), if_pos (by omega)]
      · rw [← hlength hfour] at hbody hover
        exact read_of_overlong (by omega) hbody (by rw [Frame.announced]; omega)

end Step

/-! ## Many steps -/

/-- What stands where the reading of frames has stopped. -/
def Stop.step : Stop → Step
  | .finished => .finished
  | .truncated => .truncated
  | .corrupt => .corrupt

namespace Scan

@[simp] theorem joined_nil : joined [] = .empty := rfl

@[simp] theorem joined_cons (f : Frame) (rest : List Frame) :
    joined (f :: rest) = f.encoded ++ joined rest := by
  rw [joined, List.map_cons, concat_cons]
  rfl

theorem joined_append (frames more : List Frame) :
    joined (frames ++ more) = joined frames ++ joined more := by
  simp [joined, concat_append]

theorem mem_positions (pos : Nat) (before : List Frame) (f : Frame) (behind : List Frame) :
    (f, pos + (joined before ++ f.encoded).size) ∈ positions pos (before ++ f :: behind) := by
  induction before generalizing pos with
  | nil =>
      rw [joined_nil, ByteArray.empty_append]
      exact List.mem_cons_self
  | cons g before ih =>
      have hrest := ih (pos + g.encoded.size)
      rw [Nat.add_assoc, ← ByteArray.size_append, ← ByteArray.append_assoc, ← joined_cons] at hrest
      exact List.mem_cons_of_mem _ hrest

/-- The frames that are read from a position on stand there one after the other, and nothing more of
them can be read where the reading has stopped. -/
structure Reads (bytes : ByteArray) (pos : Nat) (frames : List Frame) : Prop where
  stand : At bytes pos (joined frames)
  fit : ∀ f ∈ frames, f.bodySize ≤ Frame.largestBody
  read : (run bytes pos).frames = positions pos frames
  stop : Step.read bytes (pos + (joined frames).size) = (run bytes pos).stop.step

theorem Reads.nil {stop : Stop} (hpos : pos ≤ bytes.size) (hrun : run bytes pos = ⟨[], stop⟩)
    (hstep : Step.read bytes pos = stop.step) : Reads bytes pos [] := by
  refine ⟨at_empty hpos, by simp, ?_, ?_⟩
  · rw [hrun]
    rfl
  · rw [hrun]
    exact hstep

theorem run_of_frame (h : Step.read bytes pos = .frame f next) :
    run bytes pos = ⟨(f, next) :: (run bytes next).frames, (run bytes next).stop⟩ := by
  conv => lhs; unfold run
  split <;> simp_all

theorem Reads.cons {frames : List Frame} (hstep : Step.read bytes pos = .frame f next)
    (h : Reads bytes next frames) : Reads bytes pos (f :: frames) := by
  rcases Step.of_read_frame hstep with ⟨hat, hfit, rfl⟩
  have hrun := run_of_frame hstep
  refine ⟨?_, ?_, ?_, ?_⟩
  · rw [joined_cons]
    exact hat.append h.stand
  · intro g hg
    rcases List.mem_cons.1 hg with rfl | hg
    · exact hfit
    · exact h.fit g hg
  · rw [hrun, positions, h.read]
  · rw [hrun, joined_cons, ByteArray.size_append, ← Nat.add_assoc]
    exact h.stop

/-- From every position on, some frames are read. -/
theorem run_eq (bytes : ByteArray) (hpos : pos ≤ bytes.size) :
    ∃ frames, Reads bytes pos frames := by
  fun_induction run bytes pos with
  | case1 pos hstep => exact ⟨[], .nil hpos (run_of_finished hstep) hstep⟩
  | case2 pos hstep => exact ⟨[], .nil hpos (run_of_truncated hstep) hstep⟩
  | case3 pos hstep => exact ⟨[], .nil hpos (run_of_corrupt hstep) hstep⟩
  | case4 pos f next hstep rest ih =>
      rcases ih (Step.lt_of_read_frame hstep).2 with ⟨frames, hreads⟩
      exact ⟨f :: frames, hreads.cons hstep⟩

theorem length_positions (pos : Nat) (frames : List Frame) :
    (positions pos frames).length = frames.length := by
  induction frames generalizing pos with
  | nil => rfl
  | cons f frames ih => simp [positions, ih]

/-- The least number of bytes that a frame has. -/
def leastFrame : Nat := 16

theorem length_le_size_joined (frames : List Frame) :
    leastFrame * frames.length ≤ (joined frames).size := by
  induction frames with
  | nil => simp
  | cons f frames ih =>
      have hover : f.bodySize = 12 + f.payload.size := rfl
      rw [joined_cons, ByteArray.size_append, Frame.size_encoded, List.length_cons]
      unfold leastFrame at ih ⊢
      omega

/-- There are no more steps than the bytes have room for frames. -/
theorem length_run_le (hpos : pos ≤ bytes.size) :
    pos + leastFrame * (run bytes pos).frames.length ≤ bytes.size := by
  rcases run_eq bytes hpos with ⟨frames, hreads⟩
  have hwithin := hreads.stand.within
  have hleast := length_le_size_joined frames
  rw [hreads.read, length_positions]
  omega

end Scan
end Log
end GuardedStore
