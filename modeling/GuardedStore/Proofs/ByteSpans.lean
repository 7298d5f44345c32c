import GuardedStore.Digest.Crc32c
import Mathlib.Algebra.GroupWithZero.Nat
import Mathlib.Tactic.SplitIfs

/-!
# ByteSpans — what stands at a position of a byte array

Encoded data is read at a position of a larger array, in front of bytes that belong to something
else. `Bytes.At bytes pos part` says that the bytes from a position on are those of `part`.  A span
of two parts splits into spans of each (`At.left`, `At.right`), and whatever looks only at the bytes
of a span can be computed on the part alone: numbers (`At.natAt`), slices (`At.extract`) and
checksums (`At.checksum`).
-/

namespace GuardedStore
namespace Bytes

variable {bytes a b part : ByteArray} {pos i j width n : Nat}

/-! ## Bytes of a concatenation -/

theorem byteAt_append_left (h : i < a.size) : byteAt (a ++ b) i = byteAt a i := by
  have hin : i < (toList a).length := by simpa using h
  rw [byteAt_eq, byteAt_eq, toList_append, List.getElem?_append_left hin]

theorem byteAt_append_right : byteAt (a ++ b) (a.size + i) = byteAt b i := by
  have hout : (toList a).length ≤ a.size + i := by simp
  rw [byteAt_eq, byteAt_eq, toList_append, List.getElem?_append_right hout, length_toList,
    Nat.add_sub_cancel_left]

theorem byteAt_append (a b : ByteArray) (i : Nat) :
    byteAt (a ++ b) i = if i < a.size then byteAt a i else byteAt b (i - a.size) := by
  split_ifs with h
  · exact byteAt_append_left h
  · have hright := byteAt_append_right (a := a) (b := b) (i := i - a.size)
    rwa [Nat.add_sub_cancel' (Nat.le_of_not_lt h)] at hright

theorem byteAt_push (c : UInt8) : byteAt (a.push c) a.size = c := by
  have hout : (toList a).length ≤ a.size := by simp
  rw [byteAt_eq, toList_push, List.getElem?_append_right hout]
  simp

/-! ## Spans -/

/-- The bytes from a position on are those of `part`. -/
structure At (bytes : ByteArray) (pos : Nat) (part : ByteArray) : Prop where
  within : pos + part.size ≤ bytes.size
  agree : ∀ i, i < part.size → byteAt bytes (pos + i) = byteAt part i

theorem at_append_self (pre part post : ByteArray) : At (pre ++ part ++ post) pre.size part := by
  constructor
  · simp only [ByteArray.size_append]
    omega
  · intro i hi
    have hin : pre.size + i < (pre ++ part).size := by
      simp only [ByteArray.size_append]
      omega
    rw [byteAt_append_left hin, byteAt_append_right]

theorem at_self (part : ByteArray) : At part 0 part :=
  ⟨by omega, by intro i _; rw [Nat.zero_add]⟩

namespace At

theorem left (h : At bytes pos (a ++ b)) : At bytes pos a := by
  have hwithin := h.within
  rw [ByteArray.size_append] at hwithin
  refine ⟨by omega, ?_⟩
  intro i hi
  have hin : i < (a ++ b).size := by
    rw [ByteArray.size_append]
    omega
  rw [h.agree i hin, byteAt_append_left hi]

theorem right (h : At bytes pos (a ++ b)) : At bytes (pos + a.size) b := by
  have hwithin := h.within
  rw [ByteArray.size_append] at hwithin
  refine ⟨by omega, ?_⟩
  intro i hi
  have hin : a.size + i < (a ++ b).size := by
    rw [ByteArray.size_append]
    omega
  rw [Nat.add_assoc, h.agree _ hin, byteAt_append_right]

/-- The number in some bytes of a span is the number there in the part. -/
theorem natAt (h : At bytes pos part) (i width : Nat) (hi : i + width ≤ part.size) :
    Bytes.natAt bytes (pos + i) width = Bytes.natAt part i width := by
  induction width with
  | zero => rfl
  | succ width ih =>
      -- the last byte of the number is within the part
      have hbyte : byteAt bytes (pos + i + width) = byteAt part (i + width) := by
        rw [Nat.add_assoc]
        exact h.agree (i + width) (by omega)
      rw [Bytes.natAt, Bytes.natAt, ih (by omega), hbyte]

/-- A slice of a span is the slice of the part. -/
theorem extract (h : At bytes pos part) (hj : j ≤ part.size) :
    bytes.extract (pos + i) (pos + j) = part.extract i j := by
  have hwithin := h.within
  have hsize : (bytes.extract (pos + i) (pos + j)).size = (part.extract i j).size := by
    simp only [ByteArray.size_extract]
    omega
  -- both slices are compared byte by byte
  refine ByteArray.ext_getElem hsize ?_
  intro k hk hk'
  have hin : i + k < part.size := by
    simp only [ByteArray.size_extract] at hk'
    omega
  have hbyte := h.agree (i + k) hin
  rw [byteAt, dif_pos (by omega), byteAt, dif_pos hin] at hbyte
  simp only [ByteArray.getElem_extract, Nat.add_assoc]
  exact hbyte

theorem extract_self (h : At bytes pos part) : bytes.extract pos (pos + part.size) = part := by
  have hslice := h.extract (i := 0) (j := part.size) (Nat.le_refl _)
  simpa using hslice

open Digest.Crc32c in
theorem feedRange (h : At bytes pos part) (c : UInt32) (i : Nat) :
    feedRange bytes c (pos + i) (pos + part.size) = feedRange part c i part.size := by
  induction c, i using feedRange.induct part part.size with
  | case1 c i hi ih =>
      have hin : pos + i < pos + part.size := by omega
      rw [Digest.Crc32c.feedRange, if_pos hin, h.agree i hi, Nat.add_assoc, ih]
      conv => rhs; rw [Digest.Crc32c.feedRange, if_pos hi]
  | case2 c i hi =>
      have hout : ¬ pos + i < pos + part.size := by omega
      rw [Digest.Crc32c.feedRange, if_neg hout, Digest.Crc32c.feedRange, if_neg hi]

/-- The checksum over a span is that of the part. -/
theorem checksum (h : At bytes pos part) :
    Digest.Crc32c.checksum bytes pos (pos + part.size) =
      Digest.Crc32c.checksum part 0 part.size := by
  have hfeed := h.feedRange 0xFFFFFFFF 0
  rw [Nat.add_zero] at hfeed
  rw [Digest.Crc32c.checksum, Digest.Crc32c.checksum, hfeed]

end At

/-! ## Numbers -/

/-- A number reads back, up to what does not fit. -/
theorem natAt_ofNat (width n : Nat) : natAt (ofNat width n) 0 width = n % 256 ^ width := by
  induction width generalizing n with
  | zero => simp [natAt, Nat.mod_one]
  | succ width ih =>
      -- the front is the number of the higher digits, the last byte is the lowest one
      have hfront : At ((ofNat width (n / 256)).push (UInt8.ofNat (n % 256))) 0
          (ofNat width (n / 256)) := by
        refine ⟨by simp, ?_⟩
        intro i hi
        simp only [byteAt_eq, toList_push, Nat.zero_add]
        rw [List.getElem?_append_left (by simpa using hi)]
      have hnumber := hfront.natAt 0 width (by simp)
      have hlast : byteAt ((ofNat width (n / 256)).push (UInt8.ofNat (n % 256))) width =
          UInt8.ofNat (n % 256) := by
        have hpush := byteAt_push (a := ofNat width (n / 256)) (UInt8.ofNat (n % 256))
        rwa [size_ofNat] at hpush
      have hbyte : (UInt8.ofNat (n % 256)).toNat = n % 256 := by
        simp [UInt8.toNat_ofNat']
      -- put together again: a quotient and its remainder
      rw [ofNat, natAt, Nat.zero_add, hlast, hbyte]
      rw [Nat.zero_add] at hnumber
      rw [hnumber, ih, Nat.pow_succ', Nat.mod_mul]
      omega

theorem natAt_ofNat_of_lt (h : n < 256 ^ width) : natAt (ofNat width n) 0 width = n := by
  rw [natAt_ofNat, Nat.mod_eq_of_lt h]

/-! ## Concatenations of many parts -/

theorem foldl_append_eq (start : ByteArray) (parts : List ByteArray) :
    parts.foldl (· ++ ·) start = start ++ concat parts := by
  induction parts generalizing start with
  | nil => simp [concat]
  | cons part rest ih =>
      have hrest := ih part
      simp only [List.foldl_cons, concat] at hrest ⊢
      rw [ih, ByteArray.empty_append, hrest, concat, ByteArray.append_assoc]

@[simp] theorem concat_nil : concat [] = .empty := rfl

@[simp] theorem concat_cons (part : ByteArray) (rest : List ByteArray) :
    concat (part :: rest) = part ++ concat rest := by
  rw [concat, List.foldl_cons, foldl_append_eq, ByteArray.empty_append]

theorem concat_append (parts rest : List ByteArray) :
    concat (parts ++ rest) = concat parts ++ concat rest := by
  induction parts with
  | nil => simp
  | cons part parts ih => simp [ih, ByteArray.append_assoc]

theorem size_concat (parts : List ByteArray) : (concat parts).size = (parts.map (·.size)).sum := by
  induction parts with
  | nil => rfl
  | cons part parts ih => simp [ih]

end Bytes
end GuardedStore
