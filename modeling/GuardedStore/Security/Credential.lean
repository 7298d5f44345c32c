import GuardedStore.Digest.Derivation
import GuardedStore.Error.Fault

/-!
# Credentials

A credential holds a salt and a hash, both in hexadecimal, and the algorithm that derives the one
from a password and the other.  `accepts` says which passwords pass: those whose derived key is the
hash, so an empty hash or one of another length lets nobody in.  The check reads salt and hash anew,
which does not fail since a credential is made of texts that can be read (`check_eq`).
`hashed_accepts` says that a credential that was made from a password accepts it.
-/

namespace GuardedStore

/-- How a key is derived from a password. -/
structure Algorithm where
  iterations : UInt32
  -- how long the key is, in bits
  keyBits : UInt32
  iterates : iterations ≠ 0
  -- the key has at least one byte, and whole ones only
  whole : keyBits ≠ 0 ∧ keyBits % 8 = 0
  deriving Repr, DecidableEq

namespace Algorithm

def family : String := "PBKDF2WithHmacSHA256"

def create (iterations keyBits : UInt32) : Except CredentialFault Algorithm :=
  if iterates : iterations ≠ 0 then
    if whole : keyBits ≠ 0 ∧ keyBits % 8 = 0 then .ok ⟨iterations, keyBits, iterates, whole⟩
    else .error (.unevenKeyLength keyBits)
  else .error .noIterations

def standard : Algorithm := ⟨10000, 256, by decide, by decide⟩

instance : Inhabited Algorithm := ⟨standard⟩

/-- The algorithm as it is named: family, iterations and key length, with colons between. -/
def identifier (a : Algorithm) : String :=
  s!"{family}:{Decimal.text a.iterations.toNat}:{Decimal.text a.keyBits.toNat}"

def parse (text : String) : Except CredentialFault Algorithm :=
  match (text.toList.splitOn ':').map String.ofList with
  | [name, iterations, keyBits] =>
    if name ≠ family then .error (.unsupportedAlgorithm name)
    else match Text.readUInt32 iterations with
      | .error fault => .error (.badIterations iterations fault)
      | .ok i => match Text.readUInt32 keyBits with
        | .error fault => .error (.badKeyLength keyBits fault)
        | .ok k => create i k
  | _ => .error (.unparseableAlgorithm text)

def keyBytes (a : Algorithm) : Nat := a.keyBits.toNat / 8

def key (a : Algorithm) (password : String) (salt : List UInt8) : List UInt8 :=
  Digest.derive password.toUTF8.data.toList salt a.iterations.toNat a.keyBytes

@[simp] theorem length_key (a : Algorithm) (password : String) (salt : List UInt8) :
    (a.key password salt).length = a.keyBytes :=
  Digest.length_derive _ _ _ _

theorem keyBytes_pos (a : Algorithm) : 0 < a.keyBytes := by
  obtain ⟨h, h'⟩ := a.whole
  have h : a.keyBits.toNat ≠ 0 := fun e => h (UInt32.toNat_inj.1 e)
  have h' : a.keyBits.toNat % 8 = 0 := by
    have := congrArg UInt32.toNat h'
    simpa using this
  rw [keyBytes]
  omega

end Algorithm

structure Credential where
  algorithm : Algorithm
  -- the salt, in hexadecimal
  salt : String
  -- the hash, in hexadecimal
  hash : String
  saltBytes : List UInt8
  hashBytes : List UInt8
  decode_salt : Text.Hex.decode salt = .ok saltBytes
  decode_hash : Text.Hex.decode hash = .ok hashBytes
  deriving Repr, DecidableEq

namespace Credential

/-- The credential with a salt and a hash that are written in hexadecimal. -/
def create (algorithm : Algorithm) (salt hash : String) : Except CredentialFault Credential :=
  match decode_salt : Text.Hex.decode salt with
  | .error fault => .error (.saltNotHex fault)
  | .ok saltBytes => match decode_hash : Text.Hex.decode hash with
    | .error fault => .error (.hashNotHex fault)
    | .ok hashBytes => .ok ⟨algorithm, salt, hash, saltBytes, hashBytes, decode_salt, decode_hash⟩

/-- A credential that no password passes. -/
def unusable : Credential := ⟨.standard, "", "", [], [], rfl, rfl⟩

instance : Inhabited Credential := ⟨unusable⟩

def hashed (algorithm : Algorithm) (password : String) (salt : List UInt8) : Credential :=
  ⟨algorithm, Text.Hex.encode salt, Text.Hex.encode (algorithm.key password salt), salt,
    algorithm.key password salt, Text.Hex.decode_encode _, Text.Hex.decode_encode _⟩

/-- Checks a password against the salt and the hash as they are written.  An empty hash is not
checked any further. -/
def check (c : Credential) (password : String) : Except CredentialFault Bool :=
  match Text.Hex.decode c.hash with
  | .error fault => .error (.hashNotHex fault)
  | .ok hash =>
    if hash.isEmpty then .ok false
    else match Text.Hex.decode c.salt with
      | .error fault => .error (.saltNotHex fault)
      | .ok salt => .ok (hash.length == c.algorithm.keyBytes &&
        hash == c.algorithm.key password salt)

/-- Whether a password passes; nobody passes a check that fails. -/
def accepts (c : Credential) (password : String) : Bool :=
  match c.check password with
  | .ok passes => passes
  | .error _ => false

/-- The check of a credential does not fail, and the hash decides about it. -/
theorem check_eq (c : Credential) (password : String) : c.check password =
    .ok (decide (c.hashBytes = c.algorithm.key password c.saltBytes)) := by
  simp only [check, c.decode_hash, c.decode_salt]
  cases hempty : c.hashBytes.isEmpty with
  | true =>
    -- a key has at least one byte
    have hne : c.hashBytes ≠ c.algorithm.key password c.saltBytes := by
      intro h
      have hlength := congrArg List.length h
      rw [List.isEmpty_iff.1 hempty, Algorithm.length_key] at hlength
      exact absurd hlength.symm (Nat.ne_of_gt c.algorithm.keyBytes_pos)
    rw [decide_eq_false hne, if_pos rfl]
  | false =>
    have hlength : c.hashBytes = c.algorithm.key password c.saltBytes →
        c.hashBytes.length = c.algorithm.keyBytes := by
      intro h
      rw [h, Algorithm.length_key]
    rw [if_neg (by decide), Except.ok.injEq, Bool.eq_iff_iff, Bool.and_eq_true, beq_iff_eq,
      beq_iff_eq, decide_eq_true_iff]
    exact ⟨And.right, fun h => ⟨hlength h, h⟩⟩

/-- A password passes exactly if its key is the hash. -/
theorem accepts_iff (c : Credential) (password : String) :
    c.accepts password = true ↔ c.hashBytes = c.algorithm.key password c.saltBytes := by
  rw [accepts, check_eq]
  exact decide_eq_true_iff

/-- The password that a credential was made from passes. -/
theorem hashed_accepts (algorithm : Algorithm) (password : String) (salt : List UInt8) :
    (hashed algorithm password salt).accepts password = true :=
  (accepts_iff _ _).2 rfl

/-- What may be shown of a credential: neither salt nor hash. -/
def describe (c : Credential) : String :=
  "Password \x7b algorithm: PasswordAlgorithm \x7b iterations: " ++
    Decimal.text c.algorithm.iterations.toNat ++ ", key_bits: " ++
    Decimal.text c.algorithm.keyBits.toNat ++ " \x7d, .. \x7d"

end Credential

end GuardedStore
