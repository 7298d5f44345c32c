/-!
# Numbers in byte arrays

Natural numbers in a fixed number of bytes, the most significant first.  `natAt` reads one at a
position and `ofNat` writes one.
-/

namespace GuardedStore.Bytes

/-- The byte at a position, zero beyond the end. -/
def byteAt (bytes : ByteArray) (i : Nat) : UInt8 :=
  if h : i < bytes.size then bytes.get i h else 0

/-- The number in the `width` bytes from a position on. -/
def natAt (bytes : ByteArray) (pos : Nat) : Nat → Nat
  | 0 => 0
  | width + 1 => 256 * natAt bytes pos width + (byteAt bytes (pos + width)).toNat

/-- A number in `width` bytes; what does not fit is lost. -/
def ofNat : Nat → Nat → ByteArray
  | 0, _ => .empty
  | width + 1, n => (ofNat width (n / 256)).push (UInt8.ofNat (n % 256))

/-- A number in `width` bytes has `width` bytes. -/
@[simp] theorem size_ofNat (width n : Nat) : (ofNat width n).size = width := by
  induction width generalizing n with
  | zero => rfl
  | succ width ih => rw [ofNat, ByteArray.size_push, ih]

def concat (parts : List ByteArray) : ByteArray := parts.foldl (· ++ ·) .empty

def single (b : UInt8) : ByteArray := ByteArray.empty.push b

def ofList (l : List UInt8) : ByteArray := l.foldl ByteArray.push .empty

def toList (bytes : ByteArray) : List UInt8 := bytes.data.toList

/-! ## What the operations do to the list -/

@[simp] theorem length_toList (bytes : ByteArray) : (toList bytes).length = bytes.size := rfl

@[simp] theorem toList_append (a b : ByteArray) : toList (a ++ b) = toList a ++ toList b := by
  simp [toList]

@[simp] theorem toList_push (a : ByteArray) (b : UInt8) : toList (a.push b) = toList a ++ [b] := by
  simp [toList]

theorem byteAt_eq (bytes : ByteArray) (i : Nat) : byteAt bytes i = (toList bytes)[i]?.getD 0 := by
  by_cases h : i < bytes.size
  · rw [byteAt, dif_pos h, List.getElem?_eq_getElem (by simpa using h)]
    rfl
  · rw [byteAt, dif_neg h, List.getElem?_eq_none (by simpa using h)]
    rfl

end GuardedStore.Bytes
