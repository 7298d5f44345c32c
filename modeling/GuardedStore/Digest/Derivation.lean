import GuardedStore.Digest.Sha256

/-!
# Derived keys

A keyed hash (HMAC with SHA-256) and the derivation of a key from a password and a salt by
iterating it (PBKDF2).  `length_derive` says that a derived key has the length that was asked for.
-/

namespace GuardedStore.Digest

open Sha256 (State)

/-- A key of the keyed hash, as the two states that have taken it in. -/
structure HashKey where
  inner : State
  outer : State

namespace HashKey

/-- A key as one block: a longer one is hashed first, and zeros fill it up. -/
def block (key : List UInt8) : List UInt8 :=
  let key := if 64 < key.length then Sha256.hash key else key
  key ++ List.replicate (64 - key.length) 0

def ofBytes (key : List UInt8) : HashKey :=
  let pad (mask : UInt8) := Sha256.words ((block key).map (· ^^^ mask))
  ⟨Sha256.mix Sha256.initial (pad 0x36), Sha256.mix Sha256.initial (pad 0x5c)⟩

def authenticate (key : HashKey) (message : List UInt8) : State :=
  Sha256.finish key.outer 64 (Sha256.finish key.inner 64 message).bytes

/-- Hashes a hash `n` times more and combines all of them. -/
def iterate (key : HashKey) (last sum : State) : Nat → State
  | 0 => sum
  | n + 1 =>
    let next := key.authenticate last.bytes
    key.iterate next (sum.xor next) n

def part (key : HashKey) (salt : List UInt8) (iterations : Nat) (index : Nat) : List UInt8 :=
  let first := key.authenticate (salt ++ Sha256.wordBytes (UInt32.ofNat index))
  (key.iterate first first (iterations - 1)).bytes

end HashKey

/-- The key of `size` bytes that is derived from a password under a salt. -/
def derive (password salt : List UInt8) (iterations size : Nat) : List UInt8 :=
  let key := HashKey.ofBytes password
  let parts := (List.range ((size + 31) / 32)).map (fun i => key.part salt iterations (i + 1))
  parts.flatten.take size

theorem length_derive (password salt : List UInt8) (iterations size : Nat) :
    (derive password salt iterations size).length = size := by
  have h : ∀ (key : HashKey) (l : List Nat),
      (l.map (fun i => key.part salt iterations (i + 1))).flatten.length = 32 * l.length := by
    intro key l
    induction l with
    | nil => rfl
    | cons i rest ih =>
      rw [List.map_cons, List.flatten_cons, List.length_append, ih]
      simp [HashKey.part]
      omega
  rw [derive, List.length_take, h]
  simp
  omega

end GuardedStore.Digest
