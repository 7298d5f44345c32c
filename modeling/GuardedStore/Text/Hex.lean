import GuardedStore.Decimal.Digits

/-!
# Hexadecimal digits

Bytes are written as two digits each, in lower case, and read in either case.  The main
statement is `decode_encode`: what is written reads back as the same bytes.
-/

namespace GuardedStore.Text.Hex

/-- Why a text does not write bytes in hexadecimal. -/
inductive Fault where
  -- the text has an odd number of bytes
  | oddLength
  -- the byte at an offset is not a digit
  | notADigit (byte : UInt8) (offset : Nat)
  deriving Repr, DecidableEq

def digit (n : UInt8) : UInt8 := if n < 10 then n + 48 else n + 87

def value? (b : UInt8) : Option UInt8 :=
  if 48 ≤ b ∧ b ≤ 57 then some (b - 48)
  else if 97 ≤ b ∧ b ≤ 102 then some (b - 87)
  else if 65 ≤ b ∧ b ≤ 70 then some (b - 55)
  else none

/-- The digits of bytes, as bytes. -/
def encodeBytes : List UInt8 → List UInt8
  | [] => []
  | b :: rest => digit (b >>> 4) :: digit (b &&& 15) :: encodeBytes rest

/-- Reads pairs of digits, the first of which stands at an offset. -/
def decodePairs (offset : Nat) : List UInt8 → Except Fault (List UInt8)
  | [] => .ok []
  | [_] => .error .oddLength
  | h :: l :: rest =>
    match value? h, value? l with
    | none, _ => .error (.notADigit h offset)
    | some _, none => .error (.notADigit l (offset + 1))
    | some hi, some lo =>
      match decodePairs (offset + 2) rest with
      | .error e => .error e
      | .ok bytes => .ok ((hi <<< 4 ||| lo) :: bytes)

def decodeBytes (digits : List UInt8) : Except Fault (List UInt8) :=
  if digits.length % 2 = 1 then .error .oddLength else decodePairs 0 digits

def encode (bytes : List UInt8) : String :=
  String.ofList ((encodeBytes bytes).map (fun b => Char.ofNat b.toNat))

def decode (text : String) : Except Fault (List UInt8) :=
  decodeBytes text.toUTF8.data.toList

theorem forall_byte {p : UInt8 → Prop} (h : ∀ n : Fin 256, p (UInt8.ofFin n)) (b : UInt8) :
    p b := h b.toFin

theorem value?_high (b : UInt8) : value? (digit (b >>> 4)) = some (b >>> 4) :=
  forall_byte (p := fun b => value? (digit (b >>> 4)) = some (b >>> 4)) (by decide +kernel) b

theorem value?_low (b : UInt8) : value? (digit (b &&& 15)) = some (b &&& 15) :=
  forall_byte (p := fun b => value? (digit (b &&& 15)) = some (b &&& 15)) (by decide +kernel) b

theorem high_or_low (b : UInt8) : (b >>> 4) <<< 4 ||| (b &&& 15) = b :=
  forall_byte (p := fun b => (b >>> 4) <<< 4 ||| (b &&& 15) = b) (by decide +kernel) b

theorem decodePairs_encodeBytes (offset : Nat) (bytes : List UInt8) :
    decodePairs offset (encodeBytes bytes) = .ok bytes := by
  induction bytes generalizing offset with
  | nil => rfl
  | cons b rest ih =>
    simp [encodeBytes, decodePairs, value?_high, value?_low, high_or_low, ih]

theorem length_encodeBytes (bytes : List UInt8) :
    (encodeBytes bytes).length = 2 * bytes.length := by
  induction bytes with
  | nil => rfl
  | cons b rest ih => simp [encodeBytes, ih]; omega

theorem decodeBytes_encodeBytes (bytes : List UInt8) :
    decodeBytes (encodeBytes bytes) = .ok bytes := by
  have : (encodeBytes bytes).length % 2 ≠ 1 := by rw [length_encodeBytes]; omega
  simp [decodeBytes, this, decodePairs_encodeBytes]

theorem utf8_ascii {bytes : List UInt8} (h : ∀ b ∈ bytes, b < 128) :
    (String.ofList (bytes.map (fun b => Char.ofNat b.toNat))).toUTF8.data.toList = bytes := by
  induction bytes with
  | nil => rfl
  | cons b rest ih =>
    have ih := ih (fun c hc => h c (List.mem_cons_of_mem b hc))
    have hb : String.utf8EncodeChar (Char.ofNat b.toNat) = [b] :=
      forall_byte (p := fun b => b < 128 → String.utf8EncodeChar (Char.ofNat b.toNat) = [b])
        (by decide +kernel) b (h b (by simp))
    simp only [String.toUTF8, String.toByteArray_ofList, List.utf8Encode, List.map_cons,
      List.flatMap_cons, hb] at ih ⊢
    simpa using ih

theorem ascii_encodeBytes (bytes : List UInt8) : ∀ d ∈ encodeBytes bytes, d < 128 := by
  induction bytes with
  | nil => simp [encodeBytes]
  | cons b rest ih =>
    have high : digit (b >>> 4) < 128 :=
      forall_byte (p := fun b => digit (b >>> 4) < 128) (by decide +kernel) b
    have low : digit (b &&& 15) < 128 :=
      forall_byte (p := fun b => digit (b &&& 15) < 128) (by decide +kernel) b
    intro d hd
    rcases List.mem_cons.1 hd with rfl | hd
    · exact high
    · rcases List.mem_cons.1 hd with rfl | hd
      · exact low
      · exact ih d hd

theorem decode_encode (bytes : List UInt8) : decode (encode bytes) = .ok bytes := by
  rw [decode, encode, utf8_ascii (ascii_encodeBytes bytes), decodeBytes_encodeBytes]

/-- A byte, read as a character of the first 256, between single quotes: what is not visible and
what would end the quotation is written with a backslash. -/
def quotedByte (b : UInt8) : String :=
  let body :=
    if b = 0 then "\\0"
    else if b = 9 then "\\t"
    else if b = 10 then "\\n"
    else if b = 13 then "\\r"
    else if b = 39 then "\\'"
    else if b = 92 then "\\\\"
    else if b < 32 || (127 ≤ b && b ≤ 160) || b = 173 then
      "\\u\x7b" ++ String.ofList (Nat.toDigits 16 b.toNat) ++ "\x7d"
    else String.singleton (Char.ofNat b.toNat)
  "'" ++ body ++ "'"

def Fault.message : Fault → String
  | .oddLength => "Odd number of digits"
  | .notADigit b offset => "Invalid character " ++ quotedByte b ++ " at position " ++
    Decimal.text offset

end GuardedStore.Text.Hex
