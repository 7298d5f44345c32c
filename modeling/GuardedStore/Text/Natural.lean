/-!
# Natural numbers in decimal

A count is written with the digits `0`–`9`, with an optional plus sign in front.  Reading one
names the first thing that is wrong with the text: nothing is there, a character is not a digit,
or the number has grown past the largest one that fits.
-/

namespace GuardedStore.Text

/-- Why a text is not a number of the wanted range. -/
inductive NaturalFault where
  | nothing
  | notADigit
  -- the number exceeds the largest one allowed
  | tooLarge
  deriving Repr, DecidableEq

def NaturalFault.message : NaturalFault → String
  | .nothing => "cannot parse integer from empty string"
  | .notADigit => "invalid digit found in string"
  | .tooLarge => "number too large to fit in target type"

def digitValue? (c : Char) : Option Nat :=
  if '0' ≤ c ∧ c ≤ '9' then some (c.toNat - '0'.toNat) else none

def readDigits (largest : Nat) (sofar : Nat) : List Char → Except NaturalFault Nat
  | [] => .ok sofar
  | c :: rest => match digitValue? c with
    | none => .error .notADigit
    | some d =>
      if largest < 10 * sofar + d then .error .tooLarge
      else readDigits largest (10 * sofar + d) rest

/-- The number that a text writes, if it is at most `largest`. -/
def readNatural (largest : Nat) (text : String) : Except NaturalFault Nat :=
  match text.toList with
  | [] => .error .nothing
  | ['+'] => .error .notADigit
  | '+' :: digits => readDigits largest 0 digits
  | digits => readDigits largest 0 digits

def largest32 : Nat := 0xFFFFFFFF

def largest64 : Nat := 0xFFFFFFFFFFFFFFFF

def readUInt32 (text : String) : Except NaturalFault UInt32 :=
  (readNatural largest32 text).map UInt32.ofNat

end GuardedStore.Text
