import GuardedStore.Bytes

/-!
# Heads of packed values

In MessagePack each value starts with a head, whose first byte tells what kind of value it is and
how large it is, or at least in how many bytes the size follows.  A head is read here with all that
belongs to it and is not data: the items of arrays and maps and the bytes of texts come after it.
-/

namespace GuardedStore.Packed

/-- The head of a value. -/
inductive Head where
  -- A number that is not negative, written as one
  | natural (n : Nat)
  -- A signed or broken number, nothing, or a truth value
  | scalar
  | text (size : Nat)
  | binary (size : Nat)
  | array (count : Nat)
  -- A map of some keys, each followed by its value
  | map (count : Nat)
  -- data of some bytes and of a foreign type, which comes first in a byte of its own
  | foreign (size : Nat)
  | reserved
  deriving Repr, DecidableEq

namespace Head

/-- How the number that follows a first byte is meant. -/
inductive Sized where
  | here (h : Head)
  -- A number of `width` bytes follows, from which the head is made
  | wide (width : Nat) (make : Nat → Head)

/-- The kind of value that a first byte announces. -/
def Sized.ofByte (b : UInt8) : Sized :=
  let n := b.toNat
  if n < 0x80 then .here (natural n)
  else if n < 0x90 then .here (map (n - 0x80))
  else if n < 0xa0 then .here (array (n - 0x90))
  else if n < 0xc0 then .here (text (n - 0xa0))
  else match n with
    | 0xc0 | 0xc2 | 0xc3 => .here scalar
    | 0xc1 => .here reserved
    | 0xc4 => .wide 1 binary
    | 0xc5 => .wide 2 binary
    | 0xc6 => .wide 4 binary
    | 0xc7 => .wide 1 foreign
    | 0xc8 => .wide 2 foreign
    | 0xc9 => .wide 4 foreign
    | 0xca => .wide 4 (fun _ => scalar)
    | 0xcb => .wide 8 (fun _ => scalar)
    | 0xcc => .wide 1 natural
    | 0xcd => .wide 2 natural
    | 0xce => .wide 4 natural
    | 0xcf => .wide 8 natural
    | 0xd0 => .wide 1 (fun _ => scalar)
    | 0xd1 => .wide 2 (fun _ => scalar)
    | 0xd2 => .wide 4 (fun _ => scalar)
    | 0xd3 => .wide 8 (fun _ => scalar)
    | 0xd4 => .here (foreign 1)
    | 0xd5 => .here (foreign 2)
    | 0xd6 => .here (foreign 4)
    | 0xd7 => .here (foreign 8)
    | 0xd8 => .here (foreign 16)
    | 0xd9 => .wide 1 text
    | 0xda => .wide 2 text
    | 0xdb => .wide 4 text
    | 0xdc => .wide 2 array
    | 0xdd => .wide 4 array
    | 0xde => .wide 2 map
    | 0xdf => .wide 4 map
    | _ => .here scalar

/-- The head at a position, and the position after it. -/
def read? (bytes : ByteArray) (pos : Nat) : Option (Head × Nat) :=
  if bytes.size ≤ pos then none
  else match Sized.ofByte (Bytes.byteAt bytes pos) with
    | .here h => some (h, pos + 1)
    | .wide width make =>
      if bytes.size < pos + 1 + width then none
      else some (make (Bytes.natAt bytes (pos + 1) width), pos + 1 + width)

end Head

/-! ## Writing -/

/-- The head of a text, in the least space. -/
def textHead (size : Nat) : ByteArray :=
  if size < 32 then Bytes.ofNat 1 (0xa0 + size)
  else if size < 0x100 then Bytes.single 0xd9 ++ Bytes.ofNat 1 size
  else if size < 0x10000 then Bytes.single 0xda ++ Bytes.ofNat 2 size
  else Bytes.single 0xdb ++ Bytes.ofNat 4 size

/-- The head of an array, in the least space. -/
def arrayHead (count : Nat) : ByteArray :=
  if count < 16 then Bytes.ofNat 1 (0x90 + count)
  else if count < 0x10000 then Bytes.single 0xdc ++ Bytes.ofNat 2 count
  else Bytes.single 0xdd ++ Bytes.ofNat 4 count

def text (s : String) : ByteArray := textHead s.utf8ByteSize ++ s.toUTF8

/-- An array of items that are already packed. -/
def array (items : List ByteArray) : ByteArray := arrayHead items.length ++ Bytes.concat items

/-! ## Reading -/

/-- The bytes of the text at a position, and the position after it.  Plain bytes may stand for a
text. -/
def readBytes? (bytes : ByteArray) (pos : Nat) : Option (ByteArray × Nat) :=
  match Head.read? bytes pos with
  | some (.text size, start) | some (.binary size, start) =>
    if bytes.size < start + size then none
    else some (bytes.extract start (start + size), start + size)
  | _ => none

/-- The text at a position, and the position after it. -/
def readText? (bytes : ByteArray) (pos : Nat) : Option (String × Nat) :=
  match readBytes? bytes pos with
  | some (b, next) => (String.fromUTF8? b).map (fun s => (s, next))
  | none => none

/-- Reads `count` items, each of which starts where the one before it ends.  The items so far come
last first. -/
def readItems? {α : Type} (readItem? : Nat → Option (α × Nat)) (sofar : List α) :
    Nat → Nat → Option (List α × Nat)
  | 0, pos => some (sofar.reverse, pos)
  | count + 1, pos => match readItem? pos with
    | none => none
    | some (a, pos) => readItems? readItem? (a :: sofar) count pos

/-- The array at a position, and the position after it.  No bytes may stand for no items. -/
def readArray? {α : Type} (readItem? : Nat → Option (α × Nat)) (bytes : ByteArray) (pos : Nat) :
    Option (List α × Nat) :=
  match Head.read? bytes pos with
  | some (.array count, start) => readItems? readItem? [] count start
  | some (.binary 0, start) => some ([], start)
  | _ => none

/-! ## Skipping -/

mutual

/-- The position after a value of any kind, in which arrays and the like are nested less than
`depth` deep. -/
def skip? (bytes : ByteArray) (depth : Nat) (pos : Nat) : Option Nat :=
  match Head.read? bytes pos with
  | none | some (.reserved, _) => none
  | some (.natural _, start) | some (.scalar, start) => some start
  | some (.text size, start) | some (.binary size, start) =>
    if bytes.size < start + size then none else some (start + size)
  | some (.array count, start) => match depth with
    | 0 | 1 => none
    | depth + 2 => skipMany? bytes (depth + 1) count start
  | some (.map count, start) => match depth with
    | 0 | 1 => none
    | depth + 2 => skipMany? bytes (depth + 1) (2 * count) start
  | some (.foreign size, start) =>
    if depth ≤ 1 ∨ bytes.size < start + 1 + size then none else some (start + 1 + size)
termination_by (depth, 0)

def skipMany? (bytes : ByteArray) (depth count : Nat) (pos : Nat) : Option Nat :=
  match count with
  | 0 => some pos
  | count + 1 => match skip? bytes depth pos with
    | none => none
    | some pos => skipMany? bytes depth count pos
termination_by (depth, count)

end

def greatestDepth : Nat := 1024

end GuardedStore.Packed
