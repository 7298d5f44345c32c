import GuardedStore.Decimal.Digits

/-!
# Shortest decimals

A binary number of double precision is written with the fewest decimal digits that read back as
the same number, and of several such texts as the one nearest to it.  If two are equally near, a
rule of the writer decides, `Tie`.

The real numbers that round to `m · 2^e` form an interval around it, which contains its ends if
`m` is even.  Fewest digits means the coarsest grid `10^p · ℕ` that has a point in the interval;
the point nearest to the number is one of its two neighbours on that grid.
-/

namespace GuardedStore

/-- A positive decimal number `coefficient · 10^exponent`. -/
structure Decimal where
  -- the digits, as one number
  coefficient : Nat
  exponent : Int
  deriving Repr, DecidableEq

namespace Decimal

/-- Which of two equally near neighbours is taken. -/
inductive Tie where
  | even
  | away
  deriving Repr, DecidableEq

/-- A positive binary number `mantissa · 2^exponent` with what surrounds it. -/
structure Binary where
  -- the significant bits, as one number
  mantissa : Nat
  exponent : Int
  -- whether the next smaller binary number is only half as far away as the next larger one
  closerBelow : Bool
  deriving Repr, DecidableEq

/-- The highest bit of a mantissa, which is not written: two to the power of 52. -/
def hiddenBit : Nat := 0x10000000000000

/-- The sign bit. -/
def signBit : Nat := 0x8000000000000000

/-- The bits of a positive finite double, with the sign bit left out. -/
def Binary.ofBits (bits : Nat) : Binary :=
  let fraction : Nat := bits % hiddenBit
  let biased : Nat := bits / hiddenBit % 0x800
  if biased = 0 then ⟨fraction, -1074, false⟩
  else ⟨hiddenBit + fraction, (biased : Int) - 1075, fraction = 0 ∧ 1 < biased⟩

/-- Whether the lower one of two neighbours, which end in `below` and the next number, is taken if
they are equally near. -/
def Tie.takesLower (tie : Tie) (below : Nat) : Bool :=
  match tie with
  | even => below % 2 = 0
  | away => false

/-- The better one of the two neighbours of `b` on the grid `10^p`, if one rounds to `b`.

All numbers are compared as multiples of a common unit: the neighbours are `a · grid` and
`(a + 1) · grid`, the number is `4 · mantissa · unit`, and the interval reaches two units up and
two units down, or one unit down where the next smaller number is closer. -/
def Binary.neighbour? (b : Binary) (tie : Tie) (p : Int) : Option Nat :=
  let e := b.exponent - 2
  let unit := Nat.pow 2 e.toNat * Nat.pow 10 (-p).toNat
  let grid := Nat.pow 10 p.toNat * Nat.pow 2 (-e).toNat
  let number := 4 * b.mantissa * unit
  let low := (4 * b.mantissa - (if b.closerBelow then 1 else 2)) * unit
  let high := (4 * b.mantissa + 2) * unit
  let inside (x : Nat) : Bool :=
    if b.mantissa % 2 = 0 then low ≤ x && x ≤ high else low < x && x < high
  let below := number / grid
  let above := below + 1
  match inside (below * grid), inside (above * grid) with
  | true, true =>
    let down := number - below * grid
    let up := above * grid - number
    if down < up ∨ down = up ∧ tie.takesLower below then some below else some above
  | true, false => some below
  | false, true => some above
  | false, false => none

/-- Tries ever finer grids, from `10^p` downward. -/
def Binary.search (b : Binary) (tie : Tie) : Nat → Int → Decimal
  | 0, p => ⟨0, p⟩
  | fuel + 1, p =>
    match b.neighbour? tie p with
    | some c => ⟨c, p⟩
    | none => b.search tie fuel (p - 1)

/-- The decimal with the fewest digits that reads back as `b`, and the nearest of these.  Every
double is below `10^309`, and seventeen digits always suffice. -/
def Binary.shortest (b : Binary) (tie : Tie) : Decimal := b.search tie 660 309

/-- The shortest decimal of the magnitude of a finite number other than zero. -/
def shortest (x : Float) (tie : Tie) : Decimal :=
  (Binary.ofBits (x.toBits.toNat % signBit)).shortest tie

/-- Whether the sign bit of a number is set, as it is for `-0.0`. -/
def isNegative (x : Float) : Bool := signBit ≤ x.toBits.toNat

/-- A positive decimal without an exponent: whole numbers have no point, and others have digits
on both sides of it. -/
def positional (d : Decimal) : String :=
  let ds := (digits d.coefficient).map Digit.toChar
  if 0 ≤ d.exponent then String.ofList (ds ++ List.replicate d.exponent.toNat '0')
  else
    let places := (-d.exponent).toNat
    let padded := List.replicate (places + 1 - ds.length) '0' ++ ds
    let cut := padded.length - places
    String.ofList (padded.take cut ++ '.' :: padded.drop cut)

/-- A number in the words of a message: the fewest digits that read back, never an exponent, and of
two equally near texts the one farther from zero. -/
def floatText (x : Float) : String :=
  if x.isNaN then "NaN"
  else
    let sign := if isNegative x then "-" else ""
    if x.isInf then sign ++ "inf"
    else if x == 0 then sign ++ "0"
    else sign ++ (shortest x .away).positional

end Decimal

end GuardedStore
