import GuardedStore.Log.Change
import GuardedStore.Proofs.ByteSpans
import Mathlib.Algebra.BigOperators.Group.List.Basic
import Mathlib.Algebra.GroupWithZero.Nat
import Mathlib.Algebra.Order.BigOperators.Group.List
import Mathlib.Algebra.Order.Group.Nat
import Mathlib.Tactic.SplitIfs

/-!
# PackedChange — packed changes read back

A packed change is read back wherever it stands: heads, texts and arrays of items are each read in
front of anything (`Head.read?_textHead`, `readText?_text`, `readArray?_array`), which together give
`Change.unpack?_pack`.  All sizes have to fit four bytes, which is the case for whatever fits a
frame. The size of a packed change is a sum over its keys and values (`Change.size_pack`).
-/

namespace GuardedStore
namespace Packed

open Bytes

variable {bytes : ByteArray} {pos n : Nat}

/-! ## Heads -/

theorem read?_narrow {h : Head} (hat : At bytes pos (ofNat 1 n))
    (hkind : Head.Sized.ofByte (UInt8.ofNat n) = .here h) :
    Head.read? bytes pos = some (h, pos + 1) := by
  have hwithin := hat.within
  rw [size_ofNat] at hwithin
  have hbyte := hat.agree 0 (by simp)
  have hfirst : byteAt (ofNat 1 n) 0 = UInt8.ofNat n := by
    have hpush := byteAt_push (a := .empty) (UInt8.ofNat (n % 256))
    have hmod : UInt8.ofNat (n % 256) = UInt8.ofNat n := by
      apply UInt8.toNat.inj
      simp
    rwa [hmod] at hpush
  rw [Nat.add_zero, hfirst] at hbyte
  rw [Head.read?, if_neg (by omega), hbyte, hkind]

theorem read?_wide {c : UInt8} {width : Nat} {make : Nat → Head}
    (hat : At bytes pos (single c ++ ofNat width n)) (hn : n < 256 ^ width)
    (hkind : Head.Sized.ofByte c = .wide width make) :
    Head.read? bytes pos = some (make n, pos + (single c ++ ofNat width n).size) := by
  have hsingle : (single c).size = 1 := rfl
  have hwithin := hat.within
  -- the first byte tells the width, and the number follows it
  have hbyte : byteAt bytes pos = c := by
    have hfirst := hat.left.agree 0 (by omega)
    rw [Nat.add_zero] at hfirst
    exact hfirst.trans (byteAt_push (a := .empty) c)
  have hnumber : natAt bytes (pos + 1) width = n := by
    have hread := hat.right.natAt 0 width (by simp)
    rw [hsingle, Nat.add_zero] at hread
    rw [hread, natAt_ofNat_of_lt hn]
  simp only [ByteArray.size_append, hsingle, size_ofNat] at hwithin ⊢
  rw [Head.read?, if_neg (by omega), hbyte, hkind]
  simp only
  rw [if_neg (by omega), hnumber, Nat.add_assoc]

theorem ofByte_shortText (hn : n < 32) :
    Head.Sized.ofByte (UInt8.ofNat (0xa0 + n)) = .here (.text n) := by
  have hbyte : (UInt8.ofNat (0xa0 + n)).toNat = 0xa0 + n := by
    rw [UInt8.toNat_ofNat']
    omega
  unfold Head.Sized.ofByte
  simp only [hbyte]
  rw [if_neg (by omega), if_neg (by omega), if_neg (by omega), if_pos (by omega),
    Nat.add_sub_cancel_left]

theorem ofByte_shortArray (hn : n < 16) :
    Head.Sized.ofByte (UInt8.ofNat (0x90 + n)) = .here (.array n) := by
  have hbyte : (UInt8.ofNat (0x90 + n)).toNat = 0x90 + n := by
    rw [UInt8.toNat_ofNat']
    omega
  unfold Head.Sized.ofByte
  simp only [hbyte]
  rw [if_neg (by omega), if_neg (by omega), if_pos (by omega), Nat.add_sub_cancel_left]

/-- The head of a text reads back. -/
theorem Head.read?_textHead (hat : At bytes pos (textHead n)) (hn : n < 2 ^ 32) :
    Head.read? bytes pos = some (.text n, pos + (textHead n).size) := by
  unfold textHead at hat ⊢
  split_ifs at hat ⊢ with h32 h256 h65536
  · rw [size_ofNat]
    exact read?_narrow hat (ofByte_shortText h32)
  · exact read?_wide hat (by omega) rfl
  · exact read?_wide hat (by omega) rfl
  · exact read?_wide hat (by omega) rfl

/-- The head of an array reads back. -/
theorem Head.read?_arrayHead (hat : At bytes pos (arrayHead n)) (hn : n < 2 ^ 32) :
    Head.read? bytes pos = some (.array n, pos + (arrayHead n).size) := by
  unfold arrayHead at hat ⊢
  split_ifs at hat ⊢ with h16 h65536
  · rw [size_ofNat]
    exact read?_narrow hat (ofByte_shortArray h16)
  · exact read?_wide hat (by omega) rfl
  · exact read?_wide hat (by omega) rfl

/-! ## Texts and arrays -/

/-- A packed text reads back. -/
theorem readText?_text {s : String} (hat : At bytes pos (text s)) (hs : s.utf8ByteSize < 2 ^ 32) :
    readText? bytes pos = some (s, pos + (text s).size) := by
  have hhead := Head.read?_textHead hat.left hs
  have hbody := hat.right
  have hwithin := hbody.within
  have hsize : s.toUTF8.size = s.utf8ByteSize := rfl
  -- the bytes behind the head are those of the text
  have hslice := hbody.extract_self
  rw [hsize] at hslice hwithin
  have hbytes : readBytes? bytes pos = some (s.toUTF8, pos + (text s).size) := by
    unfold readBytes?
    rw [hhead]
    simp only
    rw [if_neg (by omega), hslice, text, ByteArray.size_append, hsize, Nat.add_assoc]
  -- they are valid, since they come from a text
  have hvalid : String.fromUTF8? s.toUTF8 = some s := by
    rw [String.toUTF8_eq_toByteArray, String.fromUTF8?, dif_pos s.isValidUTF8]
    rfl
  simp only [readText?, hbytes, hvalid, Option.map_some]

/-- Packed items read back one after the other. -/
theorem readItems?_concat {α : Type} {readItem? : Nat → Option (α × Nat)} (pack : α → ByteArray)
    (items sofar : List α)
    (hread : ∀ a ∈ items, ∀ pos, At bytes pos (pack a) →
      readItem? pos = some (a, pos + (pack a).size))
    (hat : At bytes pos (concat (items.map pack))) :
    readItems? readItem? sofar items.length pos =
      some (sofar.reverse ++ items, pos + (concat (items.map pack)).size) := by
  induction items generalizing sofar pos with
  | nil => simp [readItems?]
  | cons a items ih =>
      simp only [List.map_cons, concat_cons] at hat ⊢
      -- the first item is read here, the others behind it
      have hitem := hread a (by simp) pos hat.left
      have hrest := ih (a :: sofar) (fun b hb => hread b (by simp [hb])) hat.right
      simp only [List.length_cons, readItems?, hitem, hrest]
      simp [ByteArray.size_append, Nat.add_assoc]

/-- A packed array reads back if its items do. -/
theorem readArray?_array {α : Type} {readItem? : Nat → Option (α × Nat)} (pack : α → ByteArray)
    (items : List α)
    (hread : ∀ a ∈ items, ∀ pos, At bytes pos (pack a) →
      readItem? pos = some (a, pos + (pack a).size))
    (hat : At bytes pos (array (items.map pack))) (hlen : items.length < 2 ^ 32) :
    readArray? readItem? bytes pos = some (items, pos + (array (items.map pack)).size) := by
  unfold array at hat ⊢
  rw [List.length_map] at hat ⊢
  have hhead := Head.read?_arrayHead hat.left hlen
  have hitems := readItems?_concat pack items [] hread hat.right
  simp only [readArray?, hhead, hitems]
  simp [ByteArray.size_append, Nat.add_assoc]

/-! ## Sizes -/

/-- How many bytes the head of a text takes. -/
def textHeadSize (size : Nat) : Nat :=
  if size < 32 then 1 else if size < 0x100 then 2 else if size < 0x10000 then 3 else 5

/-- How many bytes the head of an array takes. -/
def arrayHeadSize (count : Nat) : Nat :=
  if count < 16 then 1 else if count < 0x10000 then 3 else 5

/-- How many bytes a packed text takes. -/
def textSize (s : String) : Nat := textHeadSize s.utf8ByteSize + s.utf8ByteSize

theorem size_textHead : (textHead n).size = textHeadSize n := by
  unfold textHead textHeadSize
  split_ifs <;> simp [ByteArray.size_append, single]

theorem size_arrayHead : (arrayHead n).size = arrayHeadSize n := by
  unfold arrayHead arrayHeadSize
  split_ifs <;> simp [ByteArray.size_append, single]

theorem size_text (s : String) : (text s).size = textSize s := by
  simp [text, textSize, size_textHead, ByteArray.size_append]

theorem size_array (items : List ByteArray) :
    (array items).size = arrayHeadSize items.length + (items.map (·.size)).sum := by
  simp [array, size_arrayHead, ByteArray.size_append, size_concat]

end Packed

namespace Log
namespace Change

open Bytes Packed

variable {bytes : ByteArray} {pos : Nat}

/-- How many bytes a packed put takes. -/
def putSize (put : String × String) : Nat := 1 + textSize put.1 + textSize put.2

/-- How many bytes a packed change takes. -/
def packedSize (c : Change) : Nat :=
  1 + (arrayHeadSize c.puts.length + (c.puts.map putSize).sum) +
    (arrayHeadSize c.deletes.length + (c.deletes.map textSize).sum)

theorem size_packPut (put : String × String) : (packPut put).size = putSize put := by
  simp [packPut, size_array, size_text, putSize, arrayHeadSize, Nat.add_assoc]

theorem size_pack (c : Change) : c.pack.size = c.packedSize := by
  simp [pack, size_array, size_packPut, size_text, packedSize, arrayHeadSize, Function.comp_def,
    Nat.add_assoc]

/-- A packed put reads back. -/
theorem readPut?_packPut {put : String × String} (hat : At bytes pos (packPut put))
    (hkey : put.1.utf8ByteSize < 2 ^ 32) (hvalue : put.2.utf8ByteSize < 2 ^ 32) :
    readPut? bytes pos = some (put, pos + (packPut put).size) := by
  simp only [packPut, array, concat_cons, concat_nil, ByteArray.append_empty] at hat ⊢
  have hhead := Head.read?_arrayHead hat.left (by simp)
  have hfirst := readText?_text hat.right.left hkey
  have hsecond := readText?_text hat.right.right hvalue
  simp only [List.length_cons, List.length_nil, Nat.zero_add,
    Nat.reduceAdd] at hhead hfirst hsecond ⊢
  simp only [ByteArray.size_append, ← Nat.add_assoc]
  simp only [readPut?, hhead, hfirst, hsecond, bind, Option.bind, pure]

theorem utf8ByteSize_le_textSize (s : String) : s.utf8ByteSize ≤ textSize s := by
  simp [textSize]

theorem textSize_pos (s : String) : 1 ≤ textSize s := by
  unfold textSize textHeadSize
  split_ifs <;> omega

theorem textSize_le (s : String) : textSize s ≤ 5 + s.utf8ByteSize := by
  unfold textSize textHeadSize
  split_ifs <;> omega

/-- What is packed in a change is no larger than the change. -/
theorem le_packedSize_of_mem_puts {c : Change} {put : String × String} (h : put ∈ c.puts) :
    putSize put ≤ c.packedSize := by
  have hle : putSize put ≤ (c.puts.map putSize).sum := List.le_sum_of_mem (List.mem_map_of_mem h)
  unfold packedSize
  omega

theorem le_packedSize_of_mem_deletes {c : Change} {key : String} (h : key ∈ c.deletes) :
    textSize key ≤ c.packedSize := by
  have hle : textSize key ≤ (c.deletes.map textSize).sum :=
    List.le_sum_of_mem (List.mem_map_of_mem h)
  unfold packedSize
  omega

theorem length_puts_le (c : Change) : c.puts.length ≤ c.packedSize := by
  have hpos : ∀ size ∈ c.puts.map putSize, 1 ≤ size := by
    intro size hsize
    rcases List.mem_map.1 hsize with ⟨put, _, rfl⟩
    unfold putSize
    omega
  have hle := List.length_le_sum_of_one_le (c.puts.map putSize) hpos
  rw [List.length_map] at hle
  unfold packedSize
  omega

theorem length_deletes_le (c : Change) : c.deletes.length ≤ c.packedSize := by
  have hle := List.length_le_sum_of_one_le (c.deletes.map textSize) (by simp [textSize_pos])
  rw [List.length_map] at hle
  unfold packedSize
  omega

/-- A packed change reads back, whatever stands behind it. -/
theorem unpack?_pack {c : Change} (hat : At bytes 0 c.pack) (hsize : c.packedSize < 2 ^ 32) :
    unpack? bytes = some c := by
  -- whatever is packed is smaller than the change, so its size fits four bytes
  have hreadPut : ∀ put ∈ c.puts, ∀ pos, At bytes pos (packPut put) →
      readPut? bytes pos = some (put, pos + (packPut put).size) := by
    intro put hput pos hpos
    have hle := le_packedSize_of_mem_puts hput
    have hkey := utf8ByteSize_le_textSize put.1
    have hvalue := utf8ByteSize_le_textSize put.2
    unfold putSize at hle
    exact readPut?_packPut hpos (by omega) (by omega)
  have hreadKey : ∀ key ∈ c.deletes, ∀ pos, At bytes pos (text key) →
      readText? bytes pos = some (key, pos + (text key).size) := by
    intro key hkey pos hpos
    have hle := le_packedSize_of_mem_deletes hkey
    have hbytes := utf8ByteSize_le_textSize key
    exact readText?_text hpos (by omega)
  have hputs := length_puts_le c
  have hdeletes := length_deletes_le c
  -- the change is an array of two arrays
  simp only [pack] at hat
  rw [array, concat_cons, concat_cons, concat_nil, ByteArray.append_empty] at hat
  have hhead := Head.read?_arrayHead hat.left (by simp)
  have hfirst := readArray?_array packPut c.puts hreadPut hat.right.left (by omega)
  have hsecond := readArray?_array text c.deletes hreadKey hat.right.right (by omega)
  simp only [List.length_cons, List.length_nil, Nat.zero_add, Nat.reduceAdd] at hhead hfirst hsecond
  simp only [unpack?, readPuts?, readDeletes?, hhead, hfirst, hsecond, bind, Option.bind, pure]

end Change
end Log
end GuardedStore
