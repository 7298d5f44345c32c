import GuardedStore.Decimal.Digits

/-!
# JSON values

The value that a JSON text writes, with as much of the text as a later reading can depend on:
a number keeps its digits, an object keeps all of its members in their order, and a string is the
sequence of bytes that it stands for, which need not be the UTF-8 form of any text.
-/

namespace GuardedStore

open Decimal (Digit)

namespace Json

structure Numeral where
  -- whether a minus sign stands in front
  negative : Bool
  whole : List Digit
  -- the digits after the point, none if there is no point
  fraction : List Digit
  -- the exponent, if there is one: whether it is negative, and its digits
  exponent : Option (Bool × List Digit)
  deriving Repr, DecidableEq

end Json

inductive Json where
  | null
  | bool (b : Bool)
  | number (n : Json.Numeral)
  -- A string, as the bytes that its characters and escapes stand for
  | string (bytes : List UInt8)
  | array (items : List Json)
  -- an object, as its members in the order of the text, repeated names included
  | object (members : List (List UInt8 × Json))
  deriving Repr

namespace Json

def textBytes (s : String) : List UInt8 := s.toUTF8.data.toList

def bytesText? (bytes : List UInt8) : Option String := String.fromUTF8? bytes.toByteArray

theorem bytesText?_textBytes (s : String) : bytesText? (textBytes s) = some s := by
  have h : (textBytes s).toByteArray = s.toUTF8 := by
    ext1
    simp [textBytes]
  simp [bytesText?, h, String.fromUTF8?, String.fromUTF8, String.toUTF8, s.isValidUTF8]

def ofText (s : String) : Json := .string (textBytes s)

def text? : Json → Option String
  | .string bytes => bytesText? bytes
  | _ => none

def ofMembers (members : List (String × Json)) : Json :=
  .object (members.map (fun m => (textBytes m.1, m.2)))

@[simp] theorem text?_ofText (s : String) : (ofText s).text? = some s := bytesText?_textBytes s

end Json

end GuardedStore
