/-!
# Decimal digits

A natural number and the list of its decimal digits, most significant first.  The main statement
is `ofDigits_digits`: a number is the value of its digits.
-/

namespace GuardedStore.Decimal

abbrev Digit := Fin 10

def Digit.zero : Digit := ⟨0, by decide⟩

/-- The number that digits write, after the digits of another number. -/
def ofDigitsFrom (sofar : Nat) (ds : List Digit) : Nat :=
  ds.foldl (fun n d => 10 * n + d.val) sofar

def ofDigits (ds : List Digit) : Nat := ofDigitsFrom 0 ds

/-- The digits of a number, without leading zeros; the digits of zero are one zero. -/
def digits (n : Nat) : List Digit :=
  if h : n < 10 then [⟨n, h⟩]
  else digits (n / 10) ++ [⟨n % 10, Nat.mod_lt _ (by decide)⟩]
termination_by n

def Digit.toByte (d : Digit) : UInt8 := UInt8.ofNat (48 + d.val)

def Digit.ofByte? (b : UInt8) : Option Digit :=
  if h : 48 ≤ b.toNat ∧ b.toNat < 58 then some ⟨b.toNat - 48, by omega⟩ else none

def Digit.toChar (d : Digit) : Char := Char.ofNat (48 + d.val)

def text (n : Nat) : String := String.ofList ((digits n).map Digit.toChar)

/-- The decimal text of a number, with a minus sign if it is negative. -/
def signedText (n : Int) : String := if n < 0 then "-" ++ text n.natAbs else text n.natAbs

theorem ofByte?_toByte (d : Digit) : Digit.ofByte? d.toByte = some d := by
  revert d; decide

theorem ofDigitsFrom_append (n : Nat) (as bs : List Digit) :
    ofDigitsFrom n (as ++ bs) = ofDigitsFrom (ofDigitsFrom n as) bs := by
  simp [ofDigitsFrom]

/-- A number is the value of its digits. -/
theorem ofDigits_digits (n : Nat) : ofDigits (digits n) = n := by
  induction n using digits.induct with
  | case1 n h => rw [digits]; simp [h, ofDigits, ofDigitsFrom]
  | case2 n h ih =>
    rw [digits, dif_neg h, ofDigits, ofDigitsFrom_append]
    change ofDigitsFrom (ofDigits (digits (n / 10))) _ = n
    rw [ih]
    simp only [ofDigitsFrom, List.foldl_cons, List.foldl_nil]
    omega

end GuardedStore.Decimal
