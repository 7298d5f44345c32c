import GuardedStore.Json.Reader
import GuardedStore.Json.Writer
import GuardedStore.Text.Hex
import Mathlib.Tactic.SplitIfs

/-!
# JsonText — a written value is read back

Reading undoes writing: what `write` makes of a value is read as that value, and the bytes behind it
are left (`readValue_write`).  Any bytes may stand in a string, since all that could end it are
escaped (`readString_escapeByte`).  A number has no end of its own, so it must be a proper numeral
and nothing may follow that it could go on with (`Numeral.IsProper`, `EndsNumeral`).  The bound by
which the reader recurses may be any number above the length of the text.
-/

namespace GuardedStore
namespace Json

open Decimal (Digit)

/-! ## Strings -/

theorem hexUnit?_control {b : UInt8} (h : b < 32) :
    hexUnit? 48 48 (hexDigit (b >>> 4)) (hexDigit (b &&& 15)) = some b.toNat :=
  Text.Hex.forall_byte (p := fun b => b < 32 →
      hexUnit? 48 48 (hexDigit (b >>> 4)) (hexDigit (b &&& 15)) = some b.toNat)
    (by decide +kernel) b h

theorem codePointBytes_control {b : UInt8} (h : b < 32) : codePointBytes b.toNat = [b] :=
  Text.Hex.forall_byte (p := fun b => b < 32 → codePointBytes b.toNat = [b])
    (by decide +kernel) b h

/-- A byte is written by a short escape, by its number, or as it is. -/
theorem escapeByte_cases (b : UInt8) :
    (∃ c, escapeByte b = [92, c] ∧ c ≠ 117 ∧ shortEscape? c = some b) ∨
      (b < 32 ∧ escapeByte b = [92, 117, 48, 48, hexDigit (b >>> 4), hexDigit (b &&& 15)]) ∨
        (b ≠ 34 ∧ b ≠ 92 ∧ ¬ b < 32 ∧ escapeByte b = [b]) := by
  generalize hwritten : escapeByte b = written
  unfold escapeByte at hwritten
  split_ifs at hwritten with hquote hslash hback htab hline hform hreturn hcontrol
  · exact Or.inl ⟨34, hwritten.symm, by decide, by rw [hquote]; rfl⟩
  · exact Or.inl ⟨92, hwritten.symm, by decide, by rw [hslash]; rfl⟩
  · exact Or.inl ⟨98, hwritten.symm, by decide, by rw [hback]; rfl⟩
  · exact Or.inl ⟨116, hwritten.symm, by decide, by rw [htab]; rfl⟩
  · exact Or.inl ⟨110, hwritten.symm, by decide, by rw [hline]; rfl⟩
  · exact Or.inl ⟨102, hwritten.symm, by decide, by rw [hform]; rfl⟩
  · exact Or.inl ⟨114, hwritten.symm, by decide, by rw [hreturn]; rfl⟩
  · exact Or.inr (Or.inl ⟨hcontrol, hwritten.symm⟩)
  · exact Or.inr (Or.inr ⟨hquote, hslash, hcontrol, hwritten.symm⟩)

/-- What is written for a byte is read as that byte, in front of what is read behind it. -/
theorem readString_escapeByte (b : UInt8) (input : List UInt8) :
    readString (escapeByte b ++ input) = prepend [b] (readString input) := by
  rcases escapeByte_cases b with ⟨c, hwritten, hc, hread⟩ | ⟨hcontrol, hwritten⟩ |
    ⟨hquote, hslash, hvisible, hwritten⟩
  · have hother : ∀ (x y z w : UInt8) (rest : List UInt8), c = 117 →
        input = x :: y :: z :: w :: rest → False := by
      intro x y z w rest h _
      exact hc h
    rw [hwritten, List.cons_append, List.singleton_append, readString.eq_4 _ _ hother, hread]
  · have hlow : isHighSurrogate b.toNat = false := by
      have : b.toNat < 32 := hcontrol
      simp [isHighSurrogate]; omega
    rw [hwritten]
    simp only [List.cons_append, List.nil_append, readString, hexUnit?_control hcontrol, hlow,
      codePointBytes_control hcontrol]
    rfl
  · rw [hwritten, List.singleton_append, readString.eq_5]
    · simp [hvisible, hslash]
    · exact hquote
    · intro _ _ _ _ _ h
      exact absurd h hslash
    · intro _ _ h
      exact absurd h hslash

/-- A string is read up to its closing quotation mark. -/
theorem readString_escaped (bytes rest : List UInt8) :
    readString (bytes.flatMap escapeByte ++ 34 :: rest) = some (bytes, rest) := by
  induction bytes with
  | nil => rfl
  | cons b bytes ih =>
      rw [List.flatMap_cons, List.append_assoc, readString_escapeByte, ih]
      rfl

/-! ## Numbers -/

/-- A numeral as it can be read: with digits wherever they have to be, and no zero in front. -/
structure Numeral.IsProper (n : Numeral) : Prop where
  whole : n.whole ≠ []
  unpadded : n.whole.head? = some .zero → n.whole = [.zero]
  exponent : ∀ negative, n.exponent ≠ some (negative, [])

def EndsDigits (rest : List UInt8) : Prop := ∀ b ∈ rest.head?, Digit.ofByte? b = none

/-- Bytes that a number does not go on with. -/
structure EndsNumeral (rest : List UInt8) : Prop where
  digit : EndsDigits rest
  point : rest.head? ≠ some 46
  exponent : rest.head? ≠ some 101 ∧ rest.head? ≠ some 69

variable {ds : List Digit} {rest : List UInt8} {n : Numeral}

theorem spanDigits_written (h : EndsDigits rest) :
    spanDigits (ds.map Digit.toByte ++ rest) = (ds, rest) := by
  induction ds with
  | nil =>
      cases rest with
      | nil => rfl
      | cons b rest =>
          have hb : Digit.ofByte? b = none := h b rfl
          simp only [List.map_nil, List.nil_append, spanDigits, hb]
  | cons d ds ih =>
      simp only [List.map_cons, List.cons_append, spanDigits, Decimal.ofByte?_toByte, ih]

theorem readWhole_written (hne : ds ≠ []) (hunpadded : ds.head? = some .zero → ds = [.zero])
    (h : EndsDigits rest) : readWhole (ds.map Digit.toByte ++ rest) = some (ds, rest) := by
  unfold readWhole
  rw [spanDigits_written h]
  match ds, hne, hunpadded with
  | [d], _, _ => rfl
  | d :: e :: ds, _, hunpadded =>
      have hd : d ≠ .zero := by
        rintro rfl
        cases hunpadded rfl
      simp only [if_neg hd]

theorem endsDigits_writeExponent (h : EndsDigits rest) (exponent : Option (Bool × List Digit)) :
    EndsDigits (writeExponent exponent ++ rest) := by
  cases exponent with
  | none => exact h
  | some e =>
      intro b hb
      obtain rfl : 101 = b := Option.some.inj hb
      decide

theorem readFraction_written (h : EndsDigits rest) (hpoint : rest.head? ≠ some 46) :
    readFraction (writeFraction ds ++ rest) = some (ds, rest) := by
  cases ds with
  | nil =>
      change readFraction rest = some ([], rest)
      refine readFraction.eq_2 rest ?_
      rintro after rfl
      exact hpoint rfl
  | cons d ds =>
      have hspan : spanDigits ((d :: ds).map Digit.toByte ++ rest) = (d :: ds, rest) :=
        spanDigits_written h
      simp only [writeFraction, List.cons_append, readFraction, hspan]

theorem readSignedDigits_written {negative : Bool} (hne : ds ≠ []) (h : EndsDigits rest) :
    readSignedDigits ((if negative then 45 else 43) :: ds.map Digit.toByte ++ rest) =
      some ((negative, ds), rest) := by
  have hspan : spanDigits (ds.map Digit.toByte ++ rest) = (ds, rest) := spanDigits_written h
  obtain ⟨d, ds, rfl⟩ := List.exists_cons_of_ne_nil hne
  cases negative with
  | true => simp only [readSignedDigits, if_true, List.cons_append, hspan]
  | false => simp only [readSignedDigits, Bool.false_eq_true, if_false, List.cons_append, hspan]

theorem readExponent_written {exponent : Option (Bool × List Digit)}
    (hne : ∀ negative, exponent ≠ some (negative, [])) (h : EndsNumeral rest) :
    readExponent (writeExponent exponent ++ rest) = some (exponent, rest) := by
  cases exponent with
  | none =>
      refine readExponent.eq_3 rest ?_ ?_
      · rintro after rfl
        exact h.exponent.1 rfl
      · rintro after rfl
        exact h.exponent.2 rfl
  | some e =>
      obtain ⟨negative, ds⟩ := e
      have hread : readSignedDigits ((if negative then 45 else 43) :: ds.map Digit.toByte ++ rest) =
          some ((negative, ds), rest) := by
        refine readSignedDigits_written ?_ h.digit
        rintro rfl
        exact hne negative rfl
      exact congrArg (Option.map _) hread

theorem readUnsigned_written (hproper : n.IsProper) (h : EndsNumeral rest) (negative : Bool) :
    readUnsigned negative (n.whole.map Digit.toByte ++ (writeFraction n.fraction ++
      (writeExponent n.exponent ++ rest))) = some ({ n with negative }, rest) := by
  have hexponent := readExponent_written hproper.exponent h
  have hfraction : readFraction (writeFraction n.fraction ++ (writeExponent n.exponent ++ rest)) =
      some (n.fraction, writeExponent n.exponent ++ rest) := by
    refine readFraction_written (endsDigits_writeExponent h.digit _) ?_
    cases n.exponent with
    | none => exact h.point
    | some e => simp [writeExponent]
  have hwhole : readWhole (n.whole.map Digit.toByte ++ (writeFraction n.fraction ++
      (writeExponent n.exponent ++ rest))) =
      some (n.whole, writeFraction n.fraction ++ (writeExponent n.exponent ++ rest)) := by
    refine readWhole_written hproper.whole hproper.unpadded ?_
    cases n.fraction with
    | nil => exact endsDigits_writeExponent h.digit _
    | cons d ds =>
        intro b hb
        obtain rfl : 46 = b := Option.some.inj hb
        decide
  simp [readUnsigned, hwhole, hfraction, hexponent]

/-- The bytes that a written number can start with. -/
def startsNumeral (b : UInt8) : Bool := b == 45 || (Digit.ofByte? b).isSome

theorem exists_writeNumeral_eq_cons (hproper : n.IsProper) :
    ∃ b after, writeNumeral n = b :: after ∧ startsNumeral b = true := by
  obtain ⟨negative, whole, fraction, exponent⟩ := n
  obtain ⟨d, ds, rfl⟩ := List.exists_cons_of_ne_nil hproper.whole
  cases negative with
  | true => exact ⟨45, _, rfl, rfl⟩
  | false => exact ⟨d.toByte, _, rfl, by simp [startsNumeral, Decimal.ofByte?_toByte]⟩

/-- A proper numeral is read back, and all of it is read. -/
theorem readNumeral_written (hproper : n.IsProper) (h : EndsNumeral rest) :
    readNumeral (writeNumeral n ++ rest) = some (n, rest) := by
  have hread := readUnsigned_written hproper h n.negative
  obtain ⟨negative, whole, fraction, exponent⟩ := n
  cases negative with
  | true => simpa [writeNumeral, readNumeral] using hread
  | false =>
      obtain ⟨d, ds, rfl⟩ := List.exists_cons_of_ne_nil hproper.whole
      have hunsigned : ∀ after, readNumeral (d.toByte :: after) =
          readUnsigned false (d.toByte :: after) := by
        intro after
        refine readNumeral.eq_2 _ ?_
        intro _ hminus
        have hne : ∀ d : Digit, d.toByte ≠ 45 := by decide
        exact hne d (List.cons.inj hminus).1
      simpa [writeNumeral, hunsigned] using hread

/-! ## Values -/

mutual

/-- Whether all numbers of a value can be read as they are written. -/
def HasProperNumerals : Json → Prop
  | number n => n.IsProper
  | array items => AllHaveProperNumerals items
  | object members => MembersHaveProperNumerals members
  | _ => True

def AllHaveProperNumerals : List Json → Prop
  | [] => True
  | v :: rest => HasProperNumerals v ∧ AllHaveProperNumerals rest

def MembersHaveProperNumerals : List (List UInt8 × Json) → Prop
  | [] => True
  | (_, v) :: rest => HasProperNumerals v ∧ MembersHaveProperNumerals rest

end

/-- How a written value starts: with a byte that is neither blank nor closes a bracket. -/
structure StartsValue (input : List UInt8) : Prop where
  blanks : skipBlanks input = input
  bracket : input.head? ≠ some 93
  brace : input.head? ≠ some 125

theorem startsValue_cons {b : UInt8} (hblank : isBlankByte b = false) (hbracket : b ≠ 93)
    (hbrace : b ≠ 125) : StartsValue (b :: rest) where
  blanks := by simp [skipBlanks, hblank]
  bracket := by simpa using hbracket
  brace := by simpa using hbrace

theorem startsValue_numeral (hproper : n.IsProper) : StartsValue (writeNumeral n ++ rest) := by
  obtain ⟨b, after, hwritten, hb⟩ := exists_writeNumeral_eq_cons hproper
  rw [hwritten]
  refine startsValue_cons ?_ ?_ ?_
  · revert hb
    exact Text.Hex.forall_byte (p := fun b => startsNumeral b = true → isBlankByte b = false)
      (by decide +kernel) b
  · rintro rfl
    cases hb
  · rintro rfl
    cases hb

theorem startsValue_write {v : Json} (hproper : v.HasProperNumerals) :
    StartsValue (write v ++ rest) := by
  cases v with
  | number n =>
      rw [HasProperNumerals] at hproper
      rw [write]
      exact startsValue_numeral hproper
  | null => exact startsValue_cons (by decide) (by decide) (by decide)
  | bool b => cases b <;> exact startsValue_cons (by decide) (by decide) (by decide)
  | string bytes => exact startsValue_cons (by decide) (by decide) (by decide)
  | array items => cases items <;> exact startsValue_cons (by decide) (by decide) (by decide)
  | object members => cases members <;> exact startsValue_cons (by decide) (by decide) (by decide)

theorem startsValue_writeMember {m : List UInt8 × Json} : StartsValue (writeMember m ++ rest) := by
  obtain ⟨name, v⟩ := m
  exact startsValue_cons (by decide) (by decide) (by decide)

variable {bound : Nat} {v : Json} {vs : List Json} {m : List UInt8 × Json}
  {ms : List (List UInt8 × Json)} {input after : List UInt8}

theorem readValueWithin_numeral (hproper : n.IsProper) (h : EndsNumeral rest) :
    readValueWithin (bound + 1) (writeNumeral n ++ rest) = some (.number n, rest) := by
  have hread := readNumeral_written hproper h
  have hstart : StartsValue (writeNumeral n ++ rest) := startsValue_numeral hproper
  obtain ⟨b, after, hwritten, hb⟩ := exists_writeNumeral_eq_cons hproper
  rw [readValueWithin, hstart.blanks]
  rw [hwritten, List.cons_append] at hread ⊢
  split
  case h_7 => rw [hread]; rfl
  -- the other kinds of values start with other bytes
  all_goals
    next hother =>
      obtain ⟨rfl, -⟩ := List.cons.inj hother
      cases hb

theorem readValueWithin_array (hstart : StartsValue input)
    (hfirst : readValueWithin bound input = some (v, after))
    (hitems : readItemsWithin bound after = some (vs, rest)) :
    readValueWithin (bound + 1) (91 :: input) = some (.array (v :: vs), rest) := by
  have hskip : skipBlanks (91 :: input) = 91 :: input := rfl
  simp only [readValueWithin, hskip, hstart.blanks]
  split
  · exact absurd rfl hstart.bracket
  · simp only [hfirst, hitems]

theorem readValueWithin_object (hstart : StartsValue input)
    (hfirst : readMemberWithin bound input = some (m, after))
    (hmembers : readMembersWithin bound after = some (ms, rest)) :
    readValueWithin (bound + 1) (123 :: input) = some (.object (m :: ms), rest) := by
  have hskip : skipBlanks (123 :: input) = 123 :: input := rfl
  simp only [readValueWithin, hskip, hstart.blanks]
  split
  · exact absurd rfl hstart.brace
  · simp only [hfirst, hmembers]

theorem readItemsWithin_cons (hfirst : readValueWithin bound input = some (v, after))
    (hitems : readItemsWithin bound after = some (vs, rest)) :
    readItemsWithin (bound + 1) (44 :: input) = some (v :: vs, rest) := by
  have hskip : skipBlanks (44 :: input) = 44 :: input := rfl
  simp only [readItemsWithin, hskip, hfirst, hitems]

theorem readMembersWithin_cons (hfirst : readMemberWithin bound input = some (m, after))
    (hmembers : readMembersWithin bound after = some (ms, rest)) :
    readMembersWithin (bound + 1) (44 :: input) = some (m :: ms, rest) := by
  have hskip : skipBlanks (44 :: input) = 44 :: input := rfl
  simp only [readMembersWithin, hskip, hfirst, hmembers]

theorem readMemberWithin_written {name : List UInt8}
    (hvalue : readValueWithin bound input = some (v, rest)) :
    readMemberWithin (bound + 1) (writeString name ++ 58 :: input) = some ((name, v), rest) := by
  have hskip : ∀ after, skipBlanks (34 :: after) = 34 :: after := fun _ => rfl
  have hcolon : skipBlanks (58 :: input) = 58 :: input := rfl
  have hname := readString_escaped name (58 :: input)
  simp only [readMemberWithin, writeString, List.cons_append, List.append_assoc, List.nil_append,
    hskip, hname, hcolon, hvalue, Option.map_some]

/-- A value ends where a comma, a bracket or a brace follows it. -/
theorem endsNumeral_cons {b : UInt8} (h : b = 44 ∨ b = 93 ∨ b = 125) :
    EndsNumeral (b :: rest) where
  digit := by
    intro c hc
    obtain rfl : b = c := Option.some.inj hc
    rcases h with rfl | rfl | rfl <;> decide
  point := by rcases h with rfl | rfl | rfl <;> simp
  exponent := by rcases h with rfl | rfl | rfl <;> simp

theorem endsNumeral_writeItems : EndsNumeral (writeItems vs ++ rest) := by
  cases vs with
  | nil => exact endsNumeral_cons (Or.inr (Or.inl rfl))
  | cons v vs => exact endsNumeral_cons (Or.inl rfl)

theorem endsNumeral_writeMembers : EndsNumeral (writeMembers ms ++ rest) := by
  cases ms with
  | nil => exact endsNumeral_cons (Or.inr (Or.inr rfl))
  | cons m ms => exact endsNumeral_cons (Or.inl rfl)

mutual

/-- A written value is read back within any bound above the length of its text. -/
theorem readValueWithin_write : ∀ (v : Json) (bound : Nat) (rest : List UInt8),
    v.HasProperNumerals → (write v).length < bound → EndsNumeral rest →
      readValueWithin bound (write v ++ rest) = some (v, rest)
  | _, 0, _, _, hbound, _ => absurd hbound (Nat.not_lt_zero _)
  | .null, _ + 1, _, _, _, _ => rfl
  | .bool true, _ + 1, _, _, _, _ => rfl
  | .bool false, _ + 1, _, _, _, _ => rfl
  | .number n, _ + 1, _, hproper, _, hrest => by
      rw [HasProperNumerals] at hproper
      exact readValueWithin_numeral hproper hrest
  | .string bytes, _ + 1, rest, _, _, _ => by
      have hskip : ∀ input, skipBlanks (34 :: input) = 34 :: input := fun _ => rfl
      have hread := readString_escaped bytes rest
      simp only [write, writeString, readValueWithin, List.cons_append, List.append_assoc,
        List.nil_append, hskip, hread, Option.map_some]
  | .array [], _ + 1, _, _, _, _ => rfl
  | .array (v :: vs), bound + 1, rest, hproper, hbound, _ => by
      rw [HasProperNumerals, AllHaveProperNumerals] at hproper
      rw [write, List.length_cons, List.length_append] at hbound
      rw [write, List.cons_append, List.append_assoc]
      have hfirst := readValueWithin_write v bound (writeItems vs ++ rest) hproper.1 (by omega)
        endsNumeral_writeItems
      have hitems := readItemsWithin_write vs bound rest hproper.2 (by omega)
      exact readValueWithin_array (startsValue_write hproper.1) hfirst hitems
  | .object [], _ + 1, _, _, _, _ => rfl
  | .object (m :: ms), bound + 1, rest, hproper, hbound, _ => by
      rw [HasProperNumerals, MembersHaveProperNumerals] at hproper
      rw [write, List.length_cons, List.length_append] at hbound
      rw [write, List.cons_append, List.append_assoc]
      have hfirst := readMemberWithin_write m bound (writeMembers ms ++ rest) hproper.1 (by omega)
        endsNumeral_writeMembers
      have hmembers := readMembersWithin_write ms bound rest hproper.2 (by omega)
      exact readValueWithin_object startsValue_writeMember hfirst hmembers

theorem readItemsWithin_write : ∀ (vs : List Json) (bound : Nat) (rest : List UInt8),
    AllHaveProperNumerals vs → (writeItems vs).length < bound →
      readItemsWithin bound (writeItems vs ++ rest) = some (vs, rest)
  | _, 0, _, _, hbound => absurd hbound (Nat.not_lt_zero _)
  | [], _ + 1, _, _, _ => rfl
  | v :: vs, bound + 1, rest, hproper, hbound => by
      rw [AllHaveProperNumerals] at hproper
      rw [writeItems, List.length_cons, List.length_append] at hbound
      rw [writeItems, List.cons_append, List.append_assoc]
      have hfirst := readValueWithin_write v bound (writeItems vs ++ rest) hproper.1 (by omega)
        endsNumeral_writeItems
      exact readItemsWithin_cons hfirst (readItemsWithin_write vs bound rest hproper.2 (by omega))

theorem readMemberWithin_write : ∀ (m : List UInt8 × Json) (bound : Nat) (rest : List UInt8),
    HasProperNumerals m.2 → (writeMember m).length < bound → EndsNumeral rest →
      readMemberWithin bound (writeMember m ++ rest) = some (m, rest)
  | _, 0, _, _, hbound, _ => absurd hbound (Nat.not_lt_zero _)
  | (name, v), bound + 1, rest, hproper, hbound, hrest => by
      rw [writeMember, List.length_append, List.length_cons] at hbound
      rw [writeMember, List.append_assoc, List.cons_append]
      exact readMemberWithin_written (readValueWithin_write v bound rest hproper (by omega) hrest)

theorem readMembersWithin_write : ∀ (ms : List (List UInt8 × Json)) (bound : Nat)
    (rest : List UInt8), MembersHaveProperNumerals ms → (writeMembers ms).length < bound →
      readMembersWithin bound (writeMembers ms ++ rest) = some (ms, rest)
  | _, 0, _, _, hbound => absurd hbound (Nat.not_lt_zero _)
  | [], _ + 1, _, _, _ => rfl
  | m :: ms, bound + 1, rest, hproper, hbound => by
      rw [MembersHaveProperNumerals] at hproper
      rw [writeMembers, List.length_cons, List.length_append] at hbound
      rw [writeMembers, List.cons_append, List.append_assoc]
      have hfirst := readMemberWithin_write m bound (writeMembers ms ++ rest) hproper.1 (by omega)
        endsNumeral_writeMembers
      exact readMembersWithin_cons hfirst
        (readMembersWithin_write ms bound rest hproper.2 (by omega))

end

theorem endsNumeral_nil : EndsNumeral [] := ⟨by simp [EndsDigits], by simp, by simp⟩

/-- A written value is read back, and the bytes that follow it are left. -/
theorem readValue_write {v : Json} (hproper : v.HasProperNumerals) (hrest : EndsNumeral rest) :
    readValue (write v ++ rest) = some (v, rest) := by
  refine readValueWithin_write v _ rest hproper ?_ hrest
  rw [List.length_append]
  omega

theorem readAll_eq_some_iff {v : Json} {input : List UInt8} : readAll input = some v ↔
    ∃ rest, readValue input = some (v, rest) ∧ isFinished rest = true := by
  unfold readAll
  constructor
  · intro h
    split at h
    · next w rest hread =>
      split at h
      · next hfinished =>
        cases h
        exact ⟨rest, hread, hfinished⟩
      · cases h
    · cases h
  · rintro ⟨rest, hread, hfinished⟩
    simp only [hread, hfinished, if_true]

theorem readAll_write {v : Json} (hproper : v.HasProperNumerals) : readAll (write v) = some v := by
  have hread : readValue (write v) = some (v, []) := by
    simpa using readValue_write hproper endsNumeral_nil
  exact readAll_eq_some_iff.2 ⟨[], hread, by rfl⟩

end Json
end GuardedStore
