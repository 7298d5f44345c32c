import GuardedStore.Json.Basic

/-!
# Reading JSON

`readValue` reads one value from the front of some bytes and gives the value and the bytes that
follow it; `readAll` wants nothing but blanks after it.  Nothing is decided here that depends on
what the value is for: whether a string is a text and whether a number is in range is asked of the
value later.

A value is read by recursion on a bound for the nesting and the number of items, for which the
number of bytes is always enough, since every step reads one.
-/

namespace GuardedStore.Json

open Decimal (Digit)

/-- Space, tab, line feed and carriage return may stand between the parts of a value. -/
def isBlankByte (b : UInt8) : Bool := b == 32 || b == 9 || b == 10 || b == 13

def skipBlanks (input : List UInt8) : List UInt8 := input.dropWhile isBlankByte

/-! ## Numbers -/

/-- The digits at the front of some bytes, and what follows them. -/
def spanDigits : List UInt8 → List Digit × List UInt8
  | [] => ([], [])
  | b :: rest => match Digit.ofByte? b with
    | none => ([], b :: rest)
    | some d => let (ds, rest) := spanDigits rest; (d :: ds, rest)

/-- The digits before the point: a single zero, or digits that do not start with one. -/
def readWhole (input : List UInt8) : Option (List Digit × List UInt8) :=
  match spanDigits input with
  | ([], _) => none
  | ([d], rest) => some ([d], rest)
  | (d :: e :: ds, rest) => if d = .zero then none else some (d :: e :: ds, rest)

/-- The point and the digits after it, if there is a point. -/
def readFraction : List UInt8 → Option (List Digit × List UInt8)
  | 46 :: rest => match spanDigits rest with
    | ([], _) => none
    | (ds, rest) => some (ds, rest)
  | input => some ([], input)

def readSignedDigits (input : List UInt8) : Option ((Bool × List Digit) × List UInt8) :=
  let (negative, input) := match input with
    | 45 :: rest => (true, rest)
    | 43 :: rest => (false, rest)
    | input => (false, input)
  match spanDigits input with
  | ([], _) => none
  | (ds, rest) => some ((negative, ds), rest)

/-- The exponent, if there is one. -/
def readExponent : List UInt8 → Option (Option (Bool × List Digit) × List UInt8)
  | 101 :: rest => (readSignedDigits rest).map (fun r => (some r.1, r.2))
  | 69 :: rest => (readSignedDigits rest).map (fun r => (some r.1, r.2))
  | input => some (none, input)

def readUnsigned (negative : Bool) (input : List UInt8) : Option (Numeral × List UInt8) := do
  let (whole, input) ← readWhole input
  let (fraction, input) ← readFraction input
  let (exponent, input) ← readExponent input
  return (⟨negative, whole, fraction, exponent⟩, input)

def readNumeral : List UInt8 → Option (Numeral × List UInt8)
  | 45 :: rest => readUnsigned true rest
  | input => readUnsigned false input

/-! ## Strings -/

def hexValue? (b : UInt8) : Option Nat :=
  if 48 ≤ b ∧ b ≤ 57 then some (b.toNat - 48)
  else if 97 ≤ b ∧ b ≤ 102 then some (b.toNat - 87)
  else if 65 ≤ b ∧ b ≤ 70 then some (b.toNat - 55)
  else none

def hexUnit? (a b c d : UInt8) : Option Nat := do
  let a ← hexValue? a
  let b ← hexValue? b
  let c ← hexValue? c
  let d ← hexValue? d
  return ((a * 16 + b) * 16 + c) * 16 + d

/-- The bytes of a code point in the scheme of UTF-8.  Surrogates are written like any other code
point, and so are the bytes of no text. -/
def codePointBytes (n : Nat) : List UInt8 :=
  if n < 0x80 then [UInt8.ofNat n]
  else if n < 0x800 then [UInt8.ofNat (0xC0 + n / 64), UInt8.ofNat (0x80 + n % 64)]
  else if n < 0x10000 then
    [UInt8.ofNat (0xE0 + n / 4096), UInt8.ofNat (0x80 + n / 64 % 64), UInt8.ofNat (0x80 + n % 64)]
  else
    [UInt8.ofNat (0xF0 + n / 262144), UInt8.ofNat (0x80 + n / 4096 % 64),
      UInt8.ofNat (0x80 + n / 64 % 64), UInt8.ofNat (0x80 + n % 64)]

def isHighSurrogate (n : Nat) : Bool := 0xD800 ≤ n && n ≤ 0xDBFF

def isLowSurrogate (n : Nat) : Bool := 0xDC00 ≤ n && n ≤ 0xDFFF

def surrogatePair (high low : Nat) : Nat := (high - 0xD800) * 1024 + (low - 0xDC00) + 0x10000

def shortEscape? (b : UInt8) : Option UInt8 :=
  if b = 34 then some 34
  else if b = 92 then some 92
  else if b = 47 then some 47
  else if b = 98 then some 8
  else if b = 102 then some 12
  else if b = 110 then some 10
  else if b = 114 then some 13
  else if b = 116 then some 9
  else none

/-- The second half of a surrogate pair, if its escape is at the front. -/
def lowSurrogate? : List UInt8 → Option Nat
  | 92 :: 117 :: a :: b :: c :: d :: _ =>
    match hexUnit? a b c d with
    | some n => if isLowSurrogate n then some n else none
    | none => none
  | _ => none

def prepend (bytes : List UInt8) (r : Option (List UInt8 × List UInt8)) :
    Option (List UInt8 × List UInt8) :=
  r.map (fun (s, rest) => (bytes ++ s, rest))

/-- A string after its opening quotation mark: the bytes that it stands for, and what follows the
closing one. -/
def readString : List UInt8 → Option (List UInt8 × List UInt8)
  | [] => none
  | 34 :: rest => some ([], rest)
  | 92 :: 117 :: a :: b :: c :: d :: rest =>
    match hexUnit? a b c d with
    | none => none
    | some n =>
      if isHighSurrogate n then
        match lowSurrogate? rest, rest with
        | some low, _ :: _ :: _ :: _ :: _ :: _ :: rest =>
          prepend (codePointBytes (surrogatePair n low)) (readString rest)
        | _, rest => prepend (codePointBytes n) (readString rest)
      else prepend (codePointBytes n) (readString rest)
  | 92 :: b :: rest =>
    match shortEscape? b with
    | none => none
    | some c => prepend [c] (readString rest)
  | b :: rest => if b < 32 || b == 92 then none else prepend [b] (readString rest)

/-! ## Values -/

mutual

/-- A value at the front of some bytes, which may start with blanks. -/
def readValueWithin : Nat → List UInt8 → Option (Json × List UInt8)
  | 0, _ => none
  | bound + 1, input => match skipBlanks input with
    | 110 :: 117 :: 108 :: 108 :: rest => some (.null, rest)
    | 116 :: 114 :: 117 :: 101 :: rest => some (.bool true, rest)
    | 102 :: 97 :: 108 :: 115 :: 101 :: rest => some (.bool false, rest)
    | 34 :: rest => (readString rest).map (fun (s, rest) => (.string s, rest))
    | 91 :: rest => match skipBlanks rest with
      | 93 :: rest => some (.array [], rest)
      | rest => match readValueWithin bound rest with
        | none => none
        | some (v, rest) => match readItemsWithin bound rest with
          | none => none
          | some (vs, rest) => some (.array (v :: vs), rest)
    | 123 :: rest => match skipBlanks rest with
      | 125 :: rest => some (.object [], rest)
      | rest => match readMemberWithin bound rest with
        | none => none
        | some (m, rest) => match readMembersWithin bound rest with
          | none => none
          | some (ms, rest) => some (.object (m :: ms), rest)
    | input => (readNumeral input).map (fun (n, rest) => (.number n, rest))

/-- The items after the first, up to the closing bracket. -/
def readItemsWithin : Nat → List UInt8 → Option (List Json × List UInt8)
  | 0, _ => none
  | bound + 1, input => match skipBlanks input with
    | 93 :: rest => some ([], rest)
    | 44 :: rest => match readValueWithin bound rest with
      | none => none
      | some (v, rest) => match readItemsWithin bound rest with
        | none => none
        | some (vs, rest) => some (v :: vs, rest)
    | _ => none

def readMemberWithin : Nat → List UInt8 → Option ((List UInt8 × Json) × List UInt8)
  | 0, _ => none
  | bound + 1, input => match skipBlanks input with
    | 34 :: rest => match readString rest with
      | none => none
      | some (name, rest) => match skipBlanks rest with
        | 58 :: rest => (readValueWithin bound rest).map (fun (v, rest) => ((name, v), rest))
        | _ => none
    | _ => none

/-- The members after the first, up to the closing brace. -/
def readMembersWithin : Nat → List UInt8 → Option (List (List UInt8 × Json) × List UInt8)
  | 0, _ => none
  | bound + 1, input => match skipBlanks input with
    | 125 :: rest => some ([], rest)
    | 44 :: rest => match readMemberWithin bound rest with
      | none => none
      | some (m, rest) => match readMembersWithin bound rest with
        | none => none
        | some (ms, rest) => some (m :: ms, rest)
    | _ => none

end

/-- A value at the front of some bytes, and the bytes that follow it. -/
def readValue (input : List UInt8) : Option (Json × List UInt8) :=
  readValueWithin (input.length + 1) input

def isFinished (rest : List UInt8) : Bool := (skipBlanks rest).isEmpty

/-- The value that some bytes write, with nothing but blanks around it. -/
def readAll (input : List UInt8) : Option Json :=
  match readValue input with
  | some (v, rest) => if isFinished rest then some v else none
  | none => none

end GuardedStore.Json
