import GuardedStore.Proofs.ByteSpans
import GuardedStore.Proofs.Remainders

/-!
# ByteDamage — what changed bytes do

`Bytes.Altered a b k count` says that two arrays are the same but for some of the bytes in a window.
Spans and numbers that do not reach into the window are the same in both (`Altered.span`,
`Altered.natAt_eq`), and a number that reaches over it is another one (`Altered.natAt_ne`).  So is a
checksum over a window of at most four bytes (`Altered.checksum_ne`): the remainder tells them
apart, and two remainders that have once become different stay different.

`Bytes.Differ a b k` is the case of a single byte.
-/

namespace GuardedStore
namespace Bytes

variable {a b part : ByteArray} {pos width start stop i k : Nat}

/-! ## Arrays that differ in one byte -/

/-- The second array is the first one but for the byte at a position. -/
structure Differ (a b : ByteArray) (k : Nat) : Prop where
  size : b.size = a.size
  within : k < a.size
  changed : byteAt b k ≠ byteAt a k
  agree : ∀ i, i ≠ k → byteAt b i = byteAt a i

theorem exists_differ (hk : k < a.size) {c : UInt8} (hc : c ≠ byteAt a k) :
    ∃ b, Differ a b k ∧ byteAt b k = c := by
  have hlist : toList (a.set k c) = (toList a).set k c := by
    simp [toList, ByteArray.set]
  have hsize : (a.set k c).size = a.size := by
    rw [← length_toList, hlist, List.length_set, length_toList]
  have hset : ∀ i, byteAt (a.set k c) i = if i = k then c else byteAt a i := by
    intro i
    rw [byteAt_eq, byteAt_eq, hlist, List.getElem?_set]
    by_cases hi : k = i
    · subst hi
      simp [hk]
    · simp [hi, Ne.symm hi]
  refine ⟨a.set k c, ⟨hsize, hk, ?_, ?_⟩, ?_⟩
  · rw [hset, if_pos rfl]
    exact hc
  · intro i hi
    rw [hset, if_neg hi]
  · rw [hset, if_pos rfl]

/-! ## Numbers -/

theorem natAt_congr (h : ∀ i, i < width → byteAt b (pos + i) = byteAt a (pos + i)) :
    natAt b pos width = natAt a pos width := by
  induction width with
  | zero => rfl
  | succ width ih =>
      rw [natAt, natAt, ih (fun i hi => h i (by omega)), h width (by omega)]

/-- Numbers of the same width are equal only if all their bytes are. -/
theorem byteAt_eq_of_natAt_eq (h : natAt b pos width = natAt a pos width) (hi : i < width) :
    byteAt b (pos + i) = byteAt a (pos + i) := by
  induction width with
  | zero => omega
  | succ width ih =>
      have hb := (byteAt b (pos + width)).toNat_lt
      have ha := (byteAt a (pos + width)).toNat_lt
      rw [natAt, natAt] at h
      -- the last byte is what is left of the number on division
      rcases Nat.lt_succ_iff_lt_or_eq.1 hi with hfront | rfl
      · exact ih (by omega) hfront
      · exact UInt8.toNat_inj.1 (by omega)

/-! ## Remainders of ranges -/

open Digest.Crc32c

theorem feedRange_congr (c : UInt32)
    (h : ∀ i, start ≤ i → i < stop → byteAt b i = byteAt a i) :
    feedRange b c start stop = feedRange a c start stop := by
  induction c, start using feedRange.induct b stop with
  | case1 c i hi ih =>
      have hrest := ih (fun j hj hstop => h j (by omega) hstop)
      rw [feedRange, if_pos hi, hrest, h i (Nat.le_refl i) hi]
      conv => rhs; rw [feedRange, if_pos hi]
  | case2 c i hi => rw [feedRange, if_neg hi, feedRange, if_neg hi]

theorem feedRange_inj {c c' : UInt32}
    (heq : feedRange a c start stop = feedRange a c' start stop) :
    c = c' := by
  induction c, start using feedRange.induct a stop generalizing c' with
  | case1 c i hi ih =>
      rw [feedRange, if_pos hi, feedRange.eq_def a c', if_pos hi] at heq
      exact feed_left_inj (ih heq)
  | case2 c i hi =>
      rwa [feedRange, if_neg hi, feedRange, if_neg hi] at heq

theorem feedRange_split {c : UInt32} {mid : Nat} (hmid : start ≤ mid) (hstop : mid ≤ stop) :
    feedRange a c start stop = feedRange a (feedRange a c start mid) mid stop := by
  induction c, start using feedRange.induct a mid with
  | case1 c i hi ih =>
      rw [feedRange, if_pos (by omega), feedRange.eq_def a c i mid, if_pos hi]
      exact ih hi
  | case2 c i hi =>
      obtain rfl : i = mid := by omega
      rw [feedRange.eq_def a c i i, if_neg hi]

/-- The remainder after a range of at most four bytes tells them apart. -/
theorem byteAt_eq_of_feedRange_eq {c : UInt32} (hsize : b.size = a.size)
    (hfew : stop - start ≤ 4) (hwithin : stop ≤ a.size)
    (heq : feedRange b c start stop = feedRange a c start stop) (hstart : start ≤ i)
    (hi : i < stop) : byteAt b i = byteAt a i := by
  rw [feedRange_eq_foldl b c (by omega), feedRange_eq_foldl a c hwithin] at heq
  have hlength : (((toList b).drop start).take (stop - start)).length =
      (((toList a).drop start).take (stop - start)).length := by
    simp only [List.length_take, List.length_drop, length_toList, hsize]
  have hbytes := foldl_feed_inj hlength (by rw [List.length_take]; omega) heq
  have hbyte := congrArg (·[i - start]?) hbytes
  simp only [List.getElem?_take, List.getElem?_drop, Nat.add_sub_cancel' hstart] at hbyte
  rw [if_pos (by omega), if_pos (by omega)] at hbyte
  rw [byteAt_eq, byteAt_eq, hbyte]

/-! ## Arrays that differ in a window -/

/-- The second array is the first one but for some of the bytes in a window. -/
structure Altered (a b : ByteArray) (k count : Nat) : Prop where
  size : b.size = a.size
  within : k + count ≤ a.size
  changed : ∃ i, k ≤ i ∧ i < k + count ∧ byteAt b i ≠ byteAt a i
  agree : ∀ i, i < k ∨ k + count ≤ i → byteAt b i = byteAt a i

namespace Altered

variable {count : Nat} (h : Altered a b k count)

include h

/-- The window may be taken to be a greater one. -/
theorem mono {start more : Nat} (hstart : start ≤ k) (hstop : k + count ≤ start + more)
    (hwithin : start + more ≤ a.size) : Altered a b start more := by
  refine ⟨h.size, hwithin, ?_, ?_⟩
  · rcases h.changed with ⟨i, hk, hi, hchanged⟩
    exact ⟨i, by omega, by omega, hchanged⟩
  · intro i hi
    exact h.agree i (by omega)

/-- The same window with other bytes around. -/
theorem append (front rest : ByteArray) :
    Altered (front ++ a ++ rest) (front ++ b ++ rest) (front.size + k) count := by
  have hsize := h.size
  have hwithin := h.within
  refine ⟨by simp only [ByteArray.size_append, hsize], ?_, ?_, ?_⟩
  · simp only [ByteArray.size_append]
    omega
  · rcases h.changed with ⟨i, hk, hi, hchanged⟩
    refine ⟨front.size + i, by omega, by omega, ?_⟩
    rw [(at_append_self front b rest).agree i (by omega),
      (at_append_self front a rest).agree i (by omega)]
    exact hchanged
  · intro i hi
    simp only [byteAt_append, ByteArray.size_append, hsize]
    -- only the bytes in between are those of one of the arrays
    split_ifs with hin hfront
    · rfl
    · exact h.agree _ (by omega)
    · rfl

/-- What does not reach into the window stands in both. -/
theorem span (hat : At a pos part) (hout : k + count ≤ pos ∨ pos + part.size ≤ k) :
    At b pos part := by
  constructor
  · rw [h.size]
    exact hat.within
  · intro i hi
    rw [h.agree (pos + i) (by omega), hat.agree i hi]

theorem natAt_eq (hout : k + count ≤ pos ∨ pos + width ≤ k) :
    natAt b pos width = natAt a pos width := by
  refine natAt_congr ?_
  intro i hi
  exact h.agree (pos + i) (by omega)

/-- A number that reaches over the window is another one. -/
theorem natAt_ne (hpos : pos ≤ k) (hin : k + count ≤ pos + width) :
    natAt b pos width ≠ natAt a pos width := by
  intro heq
  rcases h.changed with ⟨i, hk, hi, hchanged⟩
  have hbyte := byteAt_eq_of_natAt_eq (i := i - pos) heq (by omega)
  rw [Nat.add_sub_cancel' (by omega)] at hbyte
  exact hchanged hbyte

/-- A checksum over a window of few bytes is another one. -/
theorem checksum_ne (hfew : count ≤ 4) (hstart : start ≤ k) (hstop : k + count ≤ stop) :
    checksum b start stop ≠ checksum a start stop := by
  intro heq
  have hfeed : feedRange b 0xFFFFFFFF start stop = feedRange a 0xFFFFFFFF start stop :=
    UInt32.not_inj.1 heq
  have hwindow : k ≤ k + count := Nat.le_add_right _ _
  -- the remainders in front are the same, and what comes behind is the same
  rw [feedRange_split hstart (by omega), feedRange_split hwindow hstop,
    feedRange_split (a := a) hstart (by omega), feedRange_split (a := a) hwindow hstop,
    feedRange_congr _ (fun i _ hi => h.agree i (Or.inl hi)),
    feedRange_congr _ (fun i hi _ => h.agree i (Or.inr hi))] at hfeed
  have hinner := feedRange_inj hfeed
  rcases h.changed with ⟨i, hk, hi, hchanged⟩
  exact hchanged (byteAt_eq_of_feedRange_eq h.size (by omega) h.within hinner hk hi)

/-- A checksum in front of the window is the same. -/
theorem checksum_eq (hstop : stop ≤ k) : checksum b start stop = checksum a start stop := by
  rw [checksum, checksum,
    feedRange_congr _ (fun i _ hi => h.agree i (Or.inl (Nat.lt_of_lt_of_le hi hstop)))]

end Altered

namespace Differ

variable (h : Differ a b k)

include h

theorem altered : Altered a b k 1 := by
  refine ⟨h.size, h.within, ⟨k, Nat.le_refl k, Nat.lt_succ_self k, h.changed⟩, ?_⟩
  intro i hi
  exact h.agree i (by omega)

/-- What does not reach over the changed byte stands in both. -/
theorem span (hat : At a pos part) (hout : k < pos ∨ pos + part.size ≤ k) : At b pos part :=
  h.altered.span hat hout

end Differ

end Bytes
end GuardedStore
