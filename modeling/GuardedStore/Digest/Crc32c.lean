import GuardedStore.Bytes

/-!
# Checksums

The cyclic redundancy check CRC-32C: the remainder of the bytes, least significant bit first, by a
fixed polynomial.  The remainder starts with all bits set and is inverted at the end.

`checksum` runs over a range of positions of a byte array, which feeds in the bytes there one after
the other (`feedRange_eq_foldl`).
-/

namespace GuardedStore.Digest.Crc32c

/-- The polynomial, its highest power left out and the others reversed. -/
def polynomial : UInt32 := 0x82F63B78

/-- Divides one bit out of the remainder. -/
def shift (c : UInt32) : UInt32 :=
  if c &&& 1 = 1 then (c >>> 1) ^^^ polynomial else c >>> 1

/-- The remainder after one more byte. -/
def feed (c : UInt32) (b : UInt8) : UInt32 :=
  shift (shift (shift (shift (shift (shift (shift (shift (c ^^^ b.toUInt32))))))))

/-- The remainder after the bytes at the positions from `i` up to `stop`. -/
def feedRange (bytes : ByteArray) (c : UInt32) (i stop : Nat) : UInt32 :=
  if i < stop then feedRange bytes (feed c (Bytes.byteAt bytes i)) (i + 1) stop else c
termination_by stop - i

/-- The checksum of the bytes at the positions from `start` up to `stop`. -/
def checksum (bytes : ByteArray) (start stop : Nat) : UInt32 :=
  ~~~ (feedRange bytes 0xFFFFFFFF start stop)

theorem feedRange_eq_foldl (bytes : ByteArray) (c : UInt32) {i stop : Nat}
    (h : stop ≤ bytes.size) :
    feedRange bytes c i stop = (((Bytes.toList bytes).drop i).take (stop - i)).foldl feed c := by
  induction c, i using feedRange.induct bytes stop with
  | case1 c i hi ih =>
    have hb : i < (Bytes.toList bytes).length := by
      rw [Bytes.length_toList]
      omega
    have hs : stop - i = (stop - (i + 1)) + 1 := by omega
    rw [feedRange, if_pos hi, ih, Bytes.byteAt_eq, List.getElem?_eq_getElem hb,
      List.drop_eq_getElem_cons hb, hs]
    rfl
  | case2 c i hi =>
    have hs : stop - i = 0 := by omega
    rw [feedRange, if_neg hi, hs]
    rfl

end GuardedStore.Digest.Crc32c
