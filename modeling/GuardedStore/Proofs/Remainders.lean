import GuardedStore.Digest.Crc32c
import Mathlib.Algebra.GroupWithZero.Nat
import Mathlib.Logic.Function.Iterate

/-!
# Remainders — what a checksum remembers of the bytes

Each step of the division can be taken back (`shift_injective`), so two remainders that have once
become different stay different while the same bytes follow.  A step is also linear in exclusive or
(`shift_xor`).  So the remainder after at most four bytes is that of a single number which they are
the digits of (`foldl_feed_eq`), and it tells them apart (`foldl_feed_inj`).
-/

namespace GuardedStore
namespace Digest.Crc32c

/-! ## One step -/

theorem toNat_ushiftRight_one (c : UInt32) : (c >>> 1).toNat = c.toNat / 2 := by
  rw [UInt32.toNat_shiftRight, UInt32.toNat_one]
  exact Nat.shiftRight_eq_div_pow _ 1

theorem and_one_eq_one_iff (c : UInt32) : c &&& 1 = 1 ↔ c.toNat % 2 = 1 := by
  rw [← UInt32.toNat_inj, UInt32.toNat_and, UInt32.toNat_one, Nat.and_one_is_mod]

/-- Half a remainder is smaller than the polynomial, whose highest bit is set. -/
theorem ushiftRight_ne_xor_polynomial (a b : UInt32) : a >>> 1 ≠ (b >>> 1) ^^^ polynomial := by
  intro h
  have ha : (a >>> 1).toNat < 2 ^ 31 := by
    have hlt := a.toNat_lt
    rw [toNat_ushiftRight_one]
    omega
  have hb : (b >>> 1).toNat < 2 ^ 31 := by
    have hlt := b.toNat_lt
    rw [toNat_ushiftRight_one]
    omega
  have hpolynomial : polynomial = (a >>> 1) ^^^ (b >>> 1) := by
    rw [h, UInt32.xor_comm (b >>> 1), UInt32.xor_assoc, UInt32.xor_self, UInt32.xor_zero]
  have hsmall := Nat.xor_lt_two_pow ha hb
  rw [← UInt32.toNat_xor, ← hpolynomial] at hsmall
  exact absurd hsmall (by decide)

theorem eq_of_ushiftRight_eq {a b : UInt32} (hhalf : a >>> 1 = b >>> 1)
    (hbit : a.toNat % 2 = b.toNat % 2) : a = b := by
  have hdiv := congrArg UInt32.toNat hhalf
  rw [toNat_ushiftRight_one, toNat_ushiftRight_one] at hdiv
  exact UInt32.toNat_inj.1 (by omega)

/-- Whether a bit was divided out shows in the highest bit, so the division can be taken back. -/
theorem shift_injective : Function.Injective shift := by
  intro a b h
  unfold shift at h
  split at h <;> split at h <;> rename_i ha hb
  · -- both were odd
    rw [and_one_eq_one_iff] at ha hb
    exact eq_of_ushiftRight_eq ((UInt32.xor_left_inj _).1 h) (by omega)
  · exact absurd h.symm (ushiftRight_ne_xor_polynomial b a)
  · exact absurd h (ushiftRight_ne_xor_polynomial a b)
  · -- both were even
    rw [and_one_eq_one_iff] at ha hb
    exact eq_of_ushiftRight_eq h (by omega)

/-- The remainder after a byte is that after eight shifts. -/
theorem feed_eq_iterate (c : UInt32) (b : UInt8) : feed c b = shift^[8] (c ^^^ b.toUInt32) := rfl

theorem feed_left_inj {c c' : UInt32} {b : UInt8} (h : feed c b = feed c' b) : c = c' := by
  rw [feed_eq_iterate, feed_eq_iterate] at h
  exact (UInt32.xor_left_inj _).1 (shift_injective.iterate 8 h)

/-! ## Many steps -/

theorem shift_eq (c : UInt32) :
    shift c = (c >>> 1) ^^^ if c.toNat % 2 = 1 then polynomial else 0 := by
  simp only [shift, and_one_eq_one_iff]
  split <;> simp

theorem xor_xor_xor_comm (a b c d : UInt32) :
    (a ^^^ b) ^^^ (c ^^^ d) = (a ^^^ c) ^^^ (b ^^^ d) := by
  ac_rfl

/-- A step is linear. -/
theorem shift_xor (a b : UInt32) : shift (a ^^^ b) = shift a ^^^ shift b := by
  have hparity : (a ^^^ b).toNat % 2 = 1 ↔ ¬ (a.toNat % 2 = 1 ↔ b.toNat % 2 = 1) := by
    rw [UInt32.toNat_xor, Nat.xor_mod_two_eq_one]
  rw [shift_eq, shift_eq a, shift_eq b, xor_xor_xor_comm, UInt32.shiftRight_xor]
  simp only [hparity]
  congr 1
  -- the polynomial is taken off both, one or none
  by_cases ha : a.toNat % 2 = 1 <;> by_cases hb : b.toNat % 2 = 1 <;> simp [ha, hb]

theorem iterate_shift_xor (n : Nat) (a b : UInt32) :
    shift^[n] (a ^^^ b) = shift^[n] a ^^^ shift^[n] b := by
  induction n generalizing a b with
  | zero => rfl
  | succ n ih =>
      rw [Function.iterate_succ_apply, Function.iterate_succ_apply, Function.iterate_succ_apply,
        shift_xor, ih]

/-- Steps that divide nothing out take zero bits off the end. -/
theorem toNat_iterate_shift {c : UInt32} {n m : Nat} (h : c.toNat = 2 ^ n * m) :
    (shift^[n] c).toNat = m := by
  induction n generalizing c with
  | zero => simpa using h
  | succ n ih =>
      rw [Nat.pow_succ'] at h
      have heven : c.toNat % 2 = 0 := by
        rw [h, Nat.mul_assoc, Nat.mul_mod_right]
      refine ih ?_
      rw [shift, if_neg (by rw [and_one_eq_one_iff]; omega), toNat_ushiftRight_one, h,
        Nat.mul_assoc, Nat.mul_div_cancel_left _ Nat.two_pos]

theorem toNat_shiftLeft_eight (w : UInt32) : (w <<< 8).toNat = w.toNat * 2 ^ 8 % 2 ^ 32 := by
  rw [UInt32.toNat_shiftLeft, Nat.shiftLeft_eq]
  rfl

theorem iterate_shift_shiftLeft {w : UInt32} (h : w.toNat < 2 ^ 24) : shift^[8] (w <<< 8) = w := by
  refine UInt32.toNat_inj.1 (toNat_iterate_shift ?_)
  rw [toNat_shiftLeft_eight, Nat.mod_eq_of_lt (by omega), Nat.mul_comm]

/-! ## Few bytes -/

/-- The number which some bytes are the digits of, the first one the lowest. -/
def word : List UInt8 → UInt32
  | [] => 0
  | b :: rest => b.toUInt32 ^^^ (word rest <<< 8)

theorem word_lt (bytes : List UInt8) : (word bytes).toNat < 2 ^ (8 * bytes.length) := by
  induction bytes with
  | nil => exact Nat.one_pos
  | cons b rest ih =>
      have hlength : 8 * (b :: rest).length = 8 * rest.length + 8 := by
        rw [List.length_cons, Nat.mul_succ]
      rw [word, UInt32.toNat_xor, hlength]
      refine Nat.xor_lt_two_pow ?_ ?_
      · have hbyte := b.toNat_lt
        rw [UInt8.toNat_toUInt32]
        exact Nat.lt_of_lt_of_le hbyte (Nat.pow_le_pow_right Nat.two_pos (Nat.le_add_left _ _))
      · rw [toNat_shiftLeft_eight, Nat.pow_add]
        have hshifted := Nat.mul_lt_mul_of_pos_right ih (Nat.two_pow_pos 8)
        exact Nat.lt_of_le_of_lt (Nat.mod_le _ _) hshifted

theorem word_lt_of_length {bytes : List UInt8} (h : bytes.length ≤ 3) :
    (word bytes).toNat < 2 ^ 24 :=
  Nat.lt_of_lt_of_le (word_lt bytes) (Nat.pow_le_pow_right Nat.two_pos (by omega))

/-- Four bytes are fed in at once if they are taken for one number. -/
theorem foldl_feed_eq (c : UInt32) {bytes : List UInt8} (h : bytes.length ≤ 4) :
    bytes.foldl feed c = shift^[8 * bytes.length] (c ^^^ word bytes) := by
  induction bytes generalizing c with
  | nil => exact (UInt32.xor_zero (a := c)).symm
  | cons b rest ih =>
      rw [List.length_cons] at h
      have hrest : shift^[8] (word rest <<< 8) = word rest :=
        iterate_shift_shiftLeft (word_lt_of_length (by omega))
      rw [List.foldl_cons, ih _ (by omega), feed_eq_iterate, List.length_cons, Nat.mul_succ,
        Function.iterate_add_apply, word, ← UInt32.xor_assoc, iterate_shift_xor 8 _ (_ <<< _),
        hrest]

theorem word_inj {bytes others : List UInt8} (hlength : bytes.length = others.length)
    (hfew : bytes.length ≤ 4) (h : word bytes = word others) : bytes = others := by
  induction bytes generalizing others with
  | nil => exact (List.length_eq_zero_iff.1 hlength.symm).symm
  | cons b rest ih =>
      cases others with
      | nil => exact absurd hlength (Nat.succ_ne_zero _)
      | cons b' rest' =>
          rw [List.length_cons, List.length_cons, Nat.succ_inj] at hlength
          rw [List.length_cons] at hfew
          -- the first byte is the lowest digit, and the others are left when it is taken off
          have hlow : ∀ w : UInt32, (w <<< 8).toUInt8 = 0 := by
            intro w
            rw [← UInt8.toNat_inj, UInt32.toNat_toUInt8, toNat_shiftLeft_eight]
            simp only [UInt8.toNat_zero]
            omega
          have hfirst := congrArg UInt32.toUInt8 h
          simp only [word, UInt32.toUInt8_xor, hlow, UInt8.xor_zero, UInt8.toUInt8_toUInt32]
            at hfirst
          subst hfirst
          have hothers := congrArg shift^[8] ((UInt32.xor_right_inj _).1 h)
          rw [iterate_shift_shiftLeft (word_lt_of_length (by omega)),
            iterate_shift_shiftLeft (word_lt_of_length (by omega))] at hothers
          rw [ih hlength (by omega) hothers]

/-- The remainder after at most four bytes tells them apart. -/
theorem foldl_feed_inj {c : UInt32} {bytes others : List UInt8}
    (hlength : bytes.length = others.length) (hfew : bytes.length ≤ 4)
    (h : bytes.foldl feed c = others.foldl feed c) : bytes = others := by
  rw [foldl_feed_eq c hfew, foldl_feed_eq c (hlength ▸ hfew), ← hlength] at h
  exact word_inj hlength hfew ((UInt32.xor_right_inj _).1 (shift_injective.iterate _ h))

end Digest.Crc32c
end GuardedStore
