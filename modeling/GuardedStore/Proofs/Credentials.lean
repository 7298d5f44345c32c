import GuardedStore.Config.Entry
import GuardedStore.Security.Policy
import Mathlib.Data.List.TakeWhile

/-!
# Credentials — who passes a credential, however it was made

A number that is written in decimal is read back (`Text.readNatural_text`), and so is the name of an
algorithm (`Algorithm.parse_identifier`) and with it each credential (`credential_ofCredential`).
Checking a password never fails and says whether the derived key is the hash that is kept, which
includes that the hash has the length of a key (`Credential.check_eq_ok_iff`).
-/

namespace GuardedStore

/-! ## Numbers in decimal -/

namespace Text

open Decimal (Digit ofDigitsFrom digits)

variable {largest n : Nat} {ds : List Digit}

theorem digitValue?_toChar (d : Digit) : digitValue? d.toChar = some d.val := by
  revert d
  decide

theorem le_ofDigitsFrom (n : Nat) (ds : List Digit) : n ≤ ofDigitsFrom n ds := by
  induction ds generalizing n with
  | nil => exact Nat.le_refl n
  | cons d ds ih =>
      have hrest := ih (10 * n + d.val)
      have hstep : ofDigitsFrom n (d :: ds) = ofDigitsFrom (10 * n + d.val) ds := rfl
      omega

/-- Digits are read if their number is not too large; what is read on the way is no larger. -/
theorem readDigits_map_toChar (h : ofDigitsFrom n ds ≤ largest) :
    readDigits largest n (ds.map Digit.toChar) = .ok (ofDigitsFrom n ds) := by
  induction ds generalizing n with
  | nil => rfl
  | cons d ds ih =>
      have hstep : ofDigitsFrom n (d :: ds) = ofDigitsFrom (10 * n + d.val) ds := rfl
      have hfits : ¬ largest < 10 * n + d.val :=
        Nat.not_lt.2 ((le_ofDigitsFrom _ ds).trans (hstep ▸ h))
      rw [List.map_cons, readDigits, digitValue?_toChar]
      simp only [if_neg hfits]
      rw [ih (hstep ▸ h), hstep]

theorem toList_text (n : Nat) : (Decimal.text n).toList = (digits n).map Digit.toChar :=
  String.toList_ofList

theorem digits_ne_nil (n : Nat) : digits n ≠ [] := by
  rw [digits]
  split <;> simp

theorem readNatural_text (h : n ≤ largest) : readNatural largest (Decimal.text n) = .ok n := by
  have hvalue : ofDigitsFrom 0 (digits n) = n := Decimal.ofDigits_digits n
  have hread : readDigits largest 0 ((digits n).map Digit.toChar) = .ok n := by
    rw [readDigits_map_toChar (by rwa [hvalue]), hvalue]
  cases hdigits : digits n with
  | nil => exact absurd hdigits (digits_ne_nil n)
  | cons d ds =>
      -- a digit is no sign
      have hsign : d.toChar ≠ '+' := (by decide : ∀ d : Digit, d.toChar ≠ '+') d
      rw [hdigits, List.map_cons] at hread
      rw [readNatural, toList_text, hdigits, List.map_cons]
      split
      · next h => cases h
      · next h => exact absurd (List.cons.inj h).1 hsign
      · next h => exact absurd (List.cons.inj h).1 hsign
      · exact hread

theorem readUInt32_text (n : UInt32) : readUInt32 (Decimal.text n.toNat) = .ok n := by
  have hfits : n.toNat ≤ largest32 := Nat.le_of_lt_succ n.toNat_lt
  rw [readUInt32, readNatural_text hfits, Except.map, UInt32.ofNat_toNat]

theorem colon_not_mem_text (n : Nat) : ':' ∉ (Decimal.text n).toList := by
  have hother : ∀ d : Digit, d.toChar ≠ ':' := by decide
  rw [toList_text]
  intro h
  obtain ⟨d, -, hd⟩ := List.mem_map.1 h
  exact hother d hd

end Text

/-! ## Algorithms -/

namespace Algorithm

theorem create_eq (a : Algorithm) : create a.iterations a.keyBits = .ok a := by
  rw [create, dif_pos a.iterates, dif_pos a.whole]

theorem toList_identifier (a : Algorithm) : a.identifier.toList =
    family.toList ++ ':' :: ((Decimal.text a.iterations.toNat).toList ++
      ':' :: (Decimal.text a.keyBits.toNat).toList) := by
  simp [identifier, toString, String.toList_append]

/-- An algorithm is known from its name. -/
theorem parse_identifier (a : Algorithm) : parse a.identifier = .ok a := by
  have hfamily : ':' ∉ family.toList := by decide
  have hparts : (a.identifier.toList.splitOn ':').map String.ofList =
      [family, Decimal.text a.iterations.toNat, Decimal.text a.keyBits.toNat] := by
    rw [toList_identifier, List.splitOn_append_cons_self, List.splitOn_append_cons_self,
      List.splitOn_eq_singleton hfamily, List.splitOn_eq_singleton (Text.colon_not_mem_text _),
      List.splitOn_eq_singleton (Text.colon_not_mem_text _)]
    simp
  simp only [parse, hparts, ne_eq, not_true_eq_false, if_false, Text.readUInt32_text, create_eq]

end Algorithm

/-! ## Credentials -/

namespace Credential

variable {a : Algorithm} {salt hash : String} {c : Credential}

/-- A credential is made of what its salt and its hash are read as. -/
theorem create_eq_ok_iff : create a salt hash = .ok c ↔
    c.algorithm = a ∧ c.salt = salt ∧ c.hash = hash := by
  unfold create
  constructor
  · intro h
    split at h
    · cases h
    · split at h
      · cases h
      · cases h
        exact ⟨rfl, rfl, rfl⟩
  · rintro ⟨rfl, rfl, rfl⟩
    split
    · next fault hsalt =>
      rw [c.decode_salt] at hsalt
      cases hsalt
    · next saltBytes hsalt =>
      split
      · next fault hhash =>
        rw [c.decode_hash] at hhash
        cases hhash
      · next hashBytes hhash =>
        have hsame := c.decode_salt
        have hsame' := c.decode_hash
        rw [hsalt] at hsame
        rw [hhash] at hsame'
        cases c
        cases hsame
        cases hsame'
        rfl

/-- Checking does not fail; the hash that is kept must be one, and the key of the password. -/
theorem check_eq_ok_iff (c : Credential) (password : String) : ∃ passes,
    c.check password = .ok passes ∧ (passes = true ↔ c.hashBytes ≠ [] ∧
      c.hashBytes.length = c.algorithm.keyBytes ∧
        c.hashBytes = c.algorithm.key password c.saltBytes) := by
  refine ⟨_, c.check_eq password, ?_⟩
  rw [decide_eq_true_iff]
  constructor
  · intro h
    have hlength : c.hashBytes.length = c.algorithm.keyBytes := by
      rw [h, Algorithm.length_key]
    refine ⟨?_, hlength, h⟩
    intro hempty
    rw [hempty] at hlength
    exact absurd hlength (Nat.ne_of_lt c.algorithm.keyBytes_pos)
  · rintro ⟨-, -, h⟩
    exact h

end Credential

/-- What a credential is written as in a configuration is read back. -/
theorem Config.CredentialEntry.credential_ofCredential (c : Credential) :
    (ofCredential c).credential = .ok c := by
  simp only [credential, ofCredential, Algorithm.parse_identifier]
  exact Credential.create_eq_ok_iff.2 ⟨rfl, rfl, rfl⟩

theorem Policy.authenticate_of_refused {p : Policy} {name password : String} {u : User}
    (huser : p.user? name = some u) (hrefused : u.credential.accepts password = false) :
    p.authenticate name password = .error (.authenticationFailed name) := by
  simp [authenticate, huser, hrefused]

namespace Credential

/-- The name of an algorithm is read back, and so is a credential that is made from a password,
which the password passes, and another one if its key is the same.  Checking any credential says
whether the hash is one and is the key of the password, and does not fail; so nobody can log in by a
credential whose hash has another length than a key. -/
theorem checked_of_create :
    (∀ a : Algorithm, Algorithm.parse a.identifier = .ok a) ∧
    (∀ (a : Algorithm) (password : String) (salt : List UInt8),
      (Config.CredentialEntry.ofCredential (hashed a password salt)).credential =
        .ok (hashed a password salt) ∧
      (hashed a password salt).check password = .ok true ∧
      ∀ other, ∃ passes, (hashed a password salt).check other = .ok passes ∧
        (passes = true ↔ a.key other salt = a.key password salt)) ∧
    (∀ password, unusable.check password = .ok false) ∧
    ∀ (a : Algorithm) (saltText hashText : String) (c : Credential),
      create a saltText hashText = .ok c →
      ∃ salt hash, Text.Hex.decode saltText = .ok salt ∧ Text.Hex.decode hashText = .ok hash ∧
        (∀ password, ∃ passes, c.check password = .ok passes ∧
          (passes = true ↔ hash ≠ [] ∧ hash.length = a.keyBytes ∧ hash = a.key password salt)) ∧
        (hash.length ≠ a.keyBytes → ∀ (p : Policy) (name password : String) (u : User),
          p.user? name = some u → u.credential = c →
            p.authenticate name password = .error (.authenticationFailed name)) := by
  refine ⟨Algorithm.parse_identifier, ?_, ?_, ?_⟩
  · intro a password salt
    refine ⟨Config.CredentialEntry.credential_ofCredential _, ?_, ?_⟩
    · rw [check_eq, decide_eq_true (by rfl)]
    · intro other
      refine ⟨_, check_eq _ _, ?_⟩
      rw [decide_eq_true_iff]
      exact eq_comm
  · intro password
    rfl
  · intro a saltText hashText c h
    obtain ⟨rfl, rfl, rfl⟩ := create_eq_ok_iff.1 h
    refine ⟨c.saltBytes, c.hashBytes, c.decode_salt, c.decode_hash, c.check_eq_ok_iff, ?_⟩
    rintro hlength p name password u huser rfl
    refine Policy.authenticate_of_refused huser ?_
    rw [Bool.eq_false_iff, ne_eq, accepts_iff]
    intro hkey
    rw [hkey, Algorithm.length_key] at hlength
    exact hlength rfl

/-- A hash of a single byte lets nobody in. -/
theorem checked_of_create_short : ∃ c, create .standard "00ff" "ab" = .ok c ∧
    c.check "p" = .ok false ∧
    Policy.authenticate ⟨.empty, .singleton "u" ⟨"u", c, .empty⟩⟩ "u" "p" =
      .error (.authenticationFailed "u") := by
  have hmade : create .standard "00ff" "ab" =
      .ok ⟨.standard, "00ff", "ab", [0x00, 0xff], [0xab], by rfl, by rfl⟩ :=
    create_eq_ok_iff.2 ⟨rfl, rfl, rfl⟩
  obtain ⟨-, -, -, hcreated⟩ := checked_of_create
  obtain ⟨salt, hash, -, hdecode, hcheck, hshort⟩ := hcreated _ _ _ _ hmade
  obtain rfl : [0xab] = hash := Except.ok.inj (hdecode.symm.trans (by rfl)).symm
  refine ⟨_, hmade, ?_, hshort (by decide) _ _ _ ⟨"u", _, .empty⟩ rfl rfl⟩
  obtain ⟨passes, hpasses, hiff⟩ := hcheck "p"
  have hfalse : passes = false := by
    rw [Bool.eq_false_iff, ne_eq, hiff]
    rintro ⟨-, hlength, -⟩
    exact absurd hlength (by decide)
  rw [hpasses, hfalse]

end Credential

end GuardedStore
