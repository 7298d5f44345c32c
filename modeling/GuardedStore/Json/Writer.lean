import GuardedStore.Json.Basic

/-!
# Writing JSON

The compact form has no blanks.  In a string the quotation mark, the backslash and the control
characters below U+0020 are escaped, with the short escapes where there is one; all other bytes
stand for themselves.  The indented form puts each member and item on a line of its own.
-/

namespace GuardedStore.Json

open Decimal (Digit)

/-- A digit of `\u00xx`, in lower case. -/
def hexDigit (n : UInt8) : UInt8 := if n < 10 then n + 48 else n + 87

/-- A byte of a string, as it is written between quotation marks. -/
def escapeByte (b : UInt8) : List UInt8 :=
  if b = 34 then [92, 34]
  else if b = 92 then [92, 92]
  else if b = 8 then [92, 98]
  else if b = 9 then [92, 116]
  else if b = 10 then [92, 110]
  else if b = 12 then [92, 102]
  else if b = 13 then [92, 114]
  else if b < 32 then [92, 117, 48, 48, hexDigit (b >>> 4), hexDigit (b &&& 15)]
  else [b]

def writeString (bytes : List UInt8) : List UInt8 :=
  34 :: (bytes.flatMap escapeByte ++ [34])

/-- The exponent of a number, always with its sign. -/
def writeExponent : Option (Bool × List Digit) → List UInt8
  | none => []
  | some (negative, ds) => 101 :: (if negative then 45 else 43) :: ds.map Digit.toByte

def writeFraction : List Digit → List UInt8
  | [] => []
  | ds => 46 :: ds.map Digit.toByte

def writeNumeral (n : Numeral) : List UInt8 :=
  (if n.negative then [45] else []) ++ n.whole.map Digit.toByte ++ writeFraction n.fraction ++
    writeExponent n.exponent

mutual

def write : Json → List UInt8
  | null => [110, 117, 108, 108]
  | bool true => [116, 114, 117, 101]
  | bool false => [102, 97, 108, 115, 101]
  | number n => writeNumeral n
  | string bytes => writeString bytes
  | array [] => [91, 93]
  | array (v :: rest) => 91 :: (write v ++ writeItems rest)
  | object [] => [123, 125]
  | object (m :: rest) => 123 :: (writeMember m ++ writeMembers rest)

/-- The items after the first, and the closing bracket. -/
def writeItems : List Json → List UInt8
  | [] => [93]
  | v :: rest => 44 :: (write v ++ writeItems rest)

def writeMember : List UInt8 × Json → List UInt8
  | (name, v) => writeString name ++ 58 :: write v

/-- The members after the first, and the closing brace. -/
def writeMembers : List (List UInt8 × Json) → List UInt8
  | [] => [125]
  | m :: rest => 44 :: (writeMember m ++ writeMembers rest)

end

/-- A new line that is indented by two blanks for each enclosing bracket. -/
def newLine (depth : Nat) : List UInt8 := 10 :: List.replicate (2 * depth) 32

mutual

def writeIndented (depth : Nat) : Json → List UInt8
  | array (v :: rest) =>
    91 :: (newLine (depth + 1) ++ writeIndented (depth + 1) v ++ writeIndentedItems depth rest)
  | object (m :: rest) =>
    123 :: (newLine (depth + 1) ++ writeIndentedMember depth m ++
      writeIndentedMembers depth rest)
  | v => write v

/-- The items after the first, and the closing bracket, each on its line. -/
def writeIndentedItems (depth : Nat) : List Json → List UInt8
  | [] => newLine depth ++ [93]
  | v :: rest =>
    44 :: (newLine (depth + 1) ++ writeIndented (depth + 1) v ++ writeIndentedItems depth rest)

def writeIndentedMember (depth : Nat) : List UInt8 × Json → List UInt8
  | (name, v) => writeString name ++ [58, 32] ++ writeIndented (depth + 1) v

/-- The members after the first, and the closing brace, each on its line. -/
def writeIndentedMembers (depth : Nat) : List (List UInt8 × Json) → List UInt8
  | [] => newLine depth ++ [125]
  | m :: rest =>
    44 :: (newLine (depth + 1) ++ writeIndentedMember depth m ++ writeIndentedMembers depth rest)

end

/-- Bytes as a text; bytes that are not UTF-8 give the empty text. -/
def bytesText (bytes : List UInt8) : String := (bytesText? bytes).getD ""

/-- The compact form of a value, as a text. -/
def compact (v : Json) : String := bytesText (write v)

/-- The indented form of a value, as a text. -/
def indented (v : Json) : String := bytesText (writeIndented 0 v)

end GuardedStore.Json
