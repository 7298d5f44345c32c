import GuardedStore.Json.Numeral
import GuardedStore.Proofs.Credentials
import GuardedStore.Proofs.JsonText

/-!
# WrittenNumerals — numbers are written as they can be read

The numeral of a natural number and that of a double have digits wherever they have to be, and no
zero in front (`Json.Numeral.isProper_ofNat`, `Json.Numeral.isProper_ofFloat`).  For a double that
depends on the search for its shortest decimal, which does not end with a coefficient of zero
unless the exponent is far from those that are written with a point.
-/

namespace GuardedStore
namespace Decimal

/-! ## Digits -/

/-- Only zero starts with the digit zero. -/
theorem head?_digits {n : Nat} (h : (digits n).head? = some .zero) : n = 0 := by
  induction n using digits.induct with
  | case1 n hsmall =>
      rw [digits, dif_pos hsmall] at h
      exact congrArg Fin.val (Option.some.inj h)
  | case2 n hlarge ih =>
      rw [digits, dif_neg hlarge, List.head?_append] at h
      cases hfirst : (digits (n / 10)).head? with
      | none => exact absurd (List.head?_eq_none_iff.1 hfirst) (Text.digits_ne_nil _)
      | some d =>
          rw [hfirst, Option.some_or] at h
          have hzero := ih (hfirst.trans h)
          omega

theorem digits_zero : digits 0 = [.zero] := by
  rw [digits, dif_pos (by decide)]
  rfl

end Decimal

namespace Decimal.Binary

variable {b : Binary} {tie : Tie} {p : Int} {c : Nat}

/-! ## Shortest decimals -/

/-- Zero is not near to a number that is not zero. -/
theorem neighbour?_ne_zero (hpos : 0 < b.mantissa) : b.neighbour? tie p ≠ some 0 := by
  intro h
  have hunit : 0 < Nat.pow 2 (b.exponent - 2).toNat * Nat.pow 10 (-p).toNat :=
    Nat.mul_pos (Nat.pow_pos (by decide)) (Nat.pow_pos (by decide))
  have hdistance : 0 < 4 * b.mantissa - (if b.closerBelow then 1 else 2) := by
    split <;> omega
  have hlow := Nat.mul_pos hdistance hunit
  -- the lower one of the neighbours is taken only if it is inside, and zero is not
  have hinside : ∀ {low x high : Nat}, 0 < low → (if b.mantissa % 2 = 0 then
      decide (low ≤ x) && decide (x ≤ high) else decide (low < x) && decide (x < high)) = true →
        0 < x := by
    intro low x high hlow hx
    split at hx <;> simp only [Bool.and_eq_true, decide_eq_true_iff] at hx <;> omega
  simp only [neighbour?] at h
  split at h
  · next hbelow _ =>
    have hx := hinside hlow hbelow
    split at h
    · rw [Option.some.inj h, Nat.zero_mul] at hx
      exact absurd hx (Nat.lt_irrefl 0)
    · cases Option.some.inj h
  · next hbelow _ =>
    have hx := hinside hlow hbelow
    rw [Option.some.inj h, Nat.zero_mul] at hx
    exact absurd hx (Nat.lt_irrefl 0)
  · cases Option.some.inj h
  · cases h

theorem neighbour?_of_zero (hzero : b.mantissa = 0) : b.neighbour? tie p = some 0 := by
  have hgrid : 0 < 10 ^ p.toNat * 2 ^ (-(b.exponent - 2)).toNat :=
    Nat.mul_pos (Nat.pow_pos (by decide)) (Nat.pow_pos (by decide))
  simp only [neighbour?, hzero]
  split <;> simp_all

/-- The search for a number other than zero comes to zero only at its end. -/
theorem exponent_search (hpos : 0 < b.mantissa) {fuel : Nat}
    (h : (b.search tie fuel p).coefficient = 0) : (b.search tie fuel p).exponent = p - fuel := by
  induction fuel generalizing p with
  | zero => simp [search]
  | succ fuel ih =>
      rw [search] at h ⊢
      cases hnear : b.neighbour? tie p with
      | some c =>
          rw [hnear] at h
          obtain rfl : c = 0 := h
          exact absurd hnear (neighbour?_ne_zero hpos)
      | none =>
          rw [hnear] at h
          have hrest : (b.search tie fuel (p - 1)).exponent = p - 1 - fuel := ih h
          simp only [hrest]
          omega

theorem exponent_shortest (h : (b.shortest tie).coefficient = 0) :
    (b.shortest tie).exponent = -351 ∨ (b.shortest tie).exponent = 309 := by
  rcases Nat.eq_zero_or_pos b.mantissa with hzero | hpos
  · right
    rw [shortest, search, neighbour?_of_zero hzero]
  · exact .inl (exponent_search hpos h)

end Decimal.Binary

namespace Json.Numeral

open Decimal

/-! ## Numerals -/

theorem isProper_ofNat (n : Nat) : (ofNat n).IsProper := by
  refine ⟨Text.digits_ne_nil n, ?_, nofun⟩
  intro hzero
  rw [ofNat, head?_digits hzero, digits_zero]

/-- The digits of a decimal start with a zero only if it is the only one, and then no zeros are
added behind it. -/
theorem isProper_ofDecimal (negative : Bool) {d : Decimal}
    (h : d.coefficient = 0 → d.exponent ≤ 0 ∨ 15 < d.exponent) :
    (ofDecimal negative d).IsProper := by
  obtain ⟨first, rest, hds⟩ := List.exists_cons_of_ne_nil (Text.digits_ne_nil d.coefficient)
  have hzero : first = .zero → rest = [] ∧ (d.exponent ≤ 0 ∨ 15 < d.exponent) := by
    rintro rfl
    have hcoefficient : d.coefficient = 0 := head?_digits (by rw [hds]; rfl)
    rw [hcoefficient, digits_zero] at hds
    exact ⟨(List.cons.inj hds).2.symm, h hcoefficient⟩
  have hfirst : ∀ {ds : List Digit}, (first :: ds).head? = some .zero → first = .zero :=
    Option.some.inj
  simp only [ofDecimal, hds, List.length_cons]
  split_ifs with hwhole hmixed hsmall
  · refine ⟨List.cons_ne_nil _ _, ?_, nofun⟩
    intro hhead
    rcases hzero (hfirst hhead) with ⟨rfl, hexponent⟩
    have hnone : d.exponent.toNat = 0 := by
      rw [List.length_nil] at hwhole
      omega
    simp only [hnone, hfirst hhead, List.replicate_zero, List.append_nil]
  · -- some digits are in front of the point
    obtain ⟨n, hn⟩ : ∃ n, (((rest.length + 1 : Nat) : Int) + d.exponent).toNat = n + 1 :=
      ⟨_, (Nat.succ_pred_eq_of_pos (by omega)).symm⟩
    rw [hn, List.take_succ_cons]
    refine ⟨List.cons_ne_nil _ _, ?_, nofun⟩
    intro hhead
    rcases hzero (hfirst hhead) with ⟨rfl, -⟩
    rw [hfirst hhead, List.take_nil]
  · exact ⟨List.cons_ne_nil _ _, fun _ => rfl, nofun⟩
  · refine ⟨List.cons_ne_nil _ _, ?_, ?_⟩
    · intro hhead
      exact congrArg (· :: []) (hfirst hhead)
    · intro _ hexponent
      exact Text.digits_ne_nil _ (Prod.mk.inj (Option.some.inj hexponent)).2

/-- Whatever double is written, its numeral can be read. -/
theorem isProper_ofFloat (x : Float) : (ofFloat x).IsProper := by
  rw [ofFloat]
  split
  · exact ⟨List.cons_ne_nil _ _, fun _ => rfl, nofun⟩
  · refine isProper_ofDecimal _ ?_
    intro hzero
    rcases Binary.exponent_shortest hzero with hend | hstart
    · exact .inl (by rw [Decimal.shortest, hend]; decide)
    · exact .inr (by rw [Decimal.shortest, hstart]; decide)

end Json.Numeral
end GuardedStore
