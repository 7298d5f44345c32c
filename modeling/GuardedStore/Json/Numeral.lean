import GuardedStore.Decimal.Shortest
import GuardedStore.Json.Basic
import GuardedStore.Text.Natural

/-!
# Numbers in JSON

Two kinds of number are written and read: natural numbers of 64 bits, and numbers of double
precision.

A natural number has neither sign, point nor exponent.  A double is written with the fewest digits
that read back, an even one last if two texts are equally near, and always with a point or an
exponent.  It is read from a significand of at most 64
bits (later digits only shift the point), which is multiplied or divided once by a power of ten;
below `10^-308` the division is done in steps.  A numeral beyond the largest double is refused.
-/

namespace GuardedStore.Json.Numeral

open Decimal

def ofNat (n : Nat) : Numeral := ⟨false, digits n, [], none⟩

/-- The natural number that a numeral writes, if it has neither sign, point nor exponent and is at
most `largest`. -/
def natural? (largest : Nat) (n : Numeral) : Option Nat :=
  if n.negative || !n.fraction.isEmpty || n.exponent.isSome then none
  else
    let value := ofDigits n.whole
    if value ≤ largest then some value else none

theorem natural?_ofNat {largest n : Nat} (h : n ≤ largest) :
    natural? largest (ofNat n) = some n := by
  simp [natural?, ofNat, ofDigits_digits, h]

/-! ## Double precision -/

/-- Reads digits after a significand for as long as the result has 64 bits; the rest of the digits
is left over. -/
def significand (sofar : Nat) : List Digit → Nat × List Digit
  | [] => (sofar, [])
  | d :: rest =>
    if Text.largest64 < 10 * sofar + d.val then (sofar, d :: rest)
    else significand (10 * sofar + d.val) rest

def powerOfTen (n : Nat) : Float := Float.ofScientific 1 false n

/-- `x / 10^n`, in steps of `10^308` until the rest of the exponent is no larger or nothing is left
of the number. -/
def divide (x : Float) (n : Nat) : Float :=
  if n ≤ 308 then x / powerOfTen n
  else if x == 0 then x
  else divide (x / powerOfTen 308) (n - 308)
termination_by n

/-- `x · 10^e`, unless that is beyond the largest double. -/
def scale? (x : Float) (e : Int) : Option Float :=
  if e < 0 then some (divide x e.natAbs)
  else if e ≤ 308 then
    let y := x * powerOfTen e.toNat
    if y.isInf then none else some y
  else if x == 0 then some x
  else none

def magnitude? (n : Numeral) : Option Float :=
  let (first, cut) := significand 0 n.whole
  let (all, left) := significand first n.fraction
  let place : Int := (cut.length : Int) - ((n.fraction.length : Int) - (left.length : Int))
  match n.exponent with
  | none => scale? all.toUInt64.toFloat place
  | some (negative, ds) =>
    let e := ofDigits ds
    if 0x80000000 ≤ e then
      if all = 0 || negative then some 0 else none
    else scale? all.toUInt64.toFloat (if negative then place - e else place + e)

def toFloat? (n : Numeral) : Option Float :=
  (magnitude? n).map (fun x => if n.negative then -x else x)

/-- The numeral of a positive decimal: positional from `10^-5` up to `10^16`, and with one digit
before the point and an exponent elsewhere. -/
def ofDecimal (negative : Bool) (d : Decimal) : Numeral :=
  let ds := digits d.coefficient
  let point : Int := ds.length + d.exponent
  if 0 ≤ d.exponent ∧ point ≤ 16 then
    ⟨negative, ds ++ List.replicate d.exponent.toNat .zero, [.zero], none⟩
  else if 0 < point ∧ point ≤ 16 then
    ⟨negative, ds.take point.toNat, ds.drop point.toNat, none⟩
  else if -5 < point ∧ point ≤ 0 then
    ⟨negative, [.zero], List.replicate (-point).toNat .zero ++ ds, none⟩
  else
    let e := point - 1
    ⟨negative, ds.take 1, ds.drop 1, some (e < 0, digits e.natAbs)⟩

/-- The numeral of a finite number: the fewest digits that read back. -/
def ofFloat (x : Float) : Numeral :=
  if x == 0 then ⟨isNegative x, [.zero], [.zero], none⟩
  else ofDecimal (isNegative x) (shortest x .even)

end GuardedStore.Json.Numeral
