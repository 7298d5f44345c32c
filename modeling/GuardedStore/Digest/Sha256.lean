/-!
# SHA-256

The secure hash of 256 bits: the message is padded to blocks of sixteen words, and each block is
mixed into a state of eight words.  A state may be kept after whole blocks and continued with
different messages, which is how keyed hashes save work.
-/

namespace GuardedStore.Digest.Sha256

structure State where
  a : UInt32
  b : UInt32
  c : UInt32
  d : UInt32
  e : UInt32
  f : UInt32
  g : UInt32
  h : UInt32
  deriving Repr, DecidableEq

namespace State

def add (s t : State) : State :=
  ⟨s.a + t.a, s.b + t.b, s.c + t.c, s.d + t.d, s.e + t.e, s.f + t.f, s.g + t.g, s.h + t.h⟩

def xor (s t : State) : State :=
  ⟨s.a ^^^ t.a, s.b ^^^ t.b, s.c ^^^ t.c, s.d ^^^ t.d, s.e ^^^ t.e, s.f ^^^ t.f, s.g ^^^ t.g,
    s.h ^^^ t.h⟩

def words (s : State) : List UInt32 := [s.a, s.b, s.c, s.d, s.e, s.f, s.g, s.h]

end State

/-- The state before the first block: the fractional parts of the square roots of the first eight
primes. -/
def initial : State :=
  ⟨0x6a09e667, 0xbb67ae85, 0x3c6ef372, 0xa54ff53a, 0x510e527f, 0x9b05688c, 0x1f83d9ab, 0x5be0cd19⟩

/-- One word for each round: the fractional parts of the cube roots of the first 64 primes. -/
def roundWords : List UInt32 :=
  [0x428a2f98, 0x71374491, 0xb5c0fbcf, 0xe9b5dba5, 0x3956c25b, 0x59f111f1, 0x923f82a4, 0xab1c5ed5,
   0xd807aa98, 0x12835b01, 0x243185be, 0x550c7dc3, 0x72be5d74, 0x80deb1fe, 0x9bdc06a7, 0xc19bf174,
   0xe49b69c1, 0xefbe4786, 0x0fc19dc6, 0x240ca1cc, 0x2de92c6f, 0x4a7484aa, 0x5cb0a9dc, 0x76f988da,
   0x983e5152, 0xa831c66d, 0xb00327c8, 0xbf597fc7, 0xc6e00bf3, 0xd5a79147, 0x06ca6351, 0x14292967,
   0x27b70a85, 0x2e1b2138, 0x4d2c6dfc, 0x53380d13, 0x650a7354, 0x766a0abb, 0x81c2c92e, 0x92722c85,
   0xa2bfe8a1, 0xa81a664b, 0xc24b8b70, 0xc76c51a3, 0xd192e819, 0xd6990624, 0xf40e3585, 0x106aa070,
   0x19a4c116, 0x1e376c08, 0x2748774c, 0x34b0bcb5, 0x391c0cb3, 0x4ed8aa4a, 0x5b9cca4f, 0x682e6ff3,
   0x748f82ee, 0x78a5636f, 0x84c87814, 0x8cc70208, 0x90befffa, 0xa4506ceb, 0xbef9a3f7, 0xc67178f2]

/-- The bits of a word moved down by `n` places, with those that leave it coming in at the top. -/
def rotate (x n : UInt32) : UInt32 := (x >>> n) ||| (x <<< (32 - n))

/-- The word after the words of a block so far, counted from where its oldest part stands. -/
def nextWord (words : Array UInt32) (i : Nat) : UInt32 :=
  let x := words.getD (i + 1) 0
  let y := words.getD (i + 14) 0
  let small := rotate x 7 ^^^ rotate x 18 ^^^ (x >>> 3)
  let large := rotate y 17 ^^^ rotate y 19 ^^^ (y >>> 10)
  words.getD i 0 + small + words.getD (i + 9) 0 + large

/-- Extends a block by `n` words, the first of which comes from position `i`. -/
def extend (words : Array UInt32) (i : Nat) : Nat → Array UInt32
  | 0 => words
  | n + 1 => extend (words.push (nextWord words i)) (i + 1) n

def round (s : State) (k w : UInt32) : State :=
  let high := rotate s.e 6 ^^^ rotate s.e 11 ^^^ rotate s.e 25
  let choice := (s.e &&& s.f) ^^^ (~~~ s.e &&& s.g)
  let t := s.h + high + choice + k + w
  let low := rotate s.a 2 ^^^ rotate s.a 13 ^^^ rotate s.a 22
  let majority := (s.a &&& s.b) ^^^ (s.a &&& s.c) ^^^ (s.b &&& s.c)
  ⟨t + (low + majority), s.a, s.b, s.c, s.d + t, s.e, s.f, s.g⟩

/-- All rounds, with the words of an extended block from position `i` on. -/
def rounds (words : Array UInt32) (s : State) (i : Nat) : List UInt32 → State
  | [] => s
  | k :: ks => rounds words (round s k (words.getD i 0)) (i + 1) ks

def mix (s : State) (block : List UInt32) : State :=
  s.add (rounds (extend block.toArray 0 48) s 0 roundWords)

/-- The words that bytes make up, four bytes each and the most significant first. -/
def words : List UInt8 → List UInt32
  | b₀ :: b₁ :: b₂ :: b₃ :: rest =>
    (b₀.toUInt32 <<< 24 ||| b₁.toUInt32 <<< 16 ||| b₂.toUInt32 <<< 8 ||| b₃.toUInt32) :: words rest
  | _ => []

/-- The bytes of a word, the most significant first. -/
def wordBytes (w : UInt32) : List UInt8 :=
  [(w >>> 24).toUInt8, (w >>> 16).toUInt8, (w >>> 8).toUInt8, w.toUInt8]

def mixAll (s : State) (ws : List UInt32) : State :=
  if ws.isEmpty then s else mixAll (mix s (ws.take 16)) (ws.drop 16)
termination_by ws.length
decreasing_by
  have h : ws.length ≠ 0 := fun e => by
    rw [List.length_eq_zero_iff] at e
    simp_all
  rw [List.length_drop]
  omega

/-- The end of a message of so many bytes: a single bit, zeros up to the end of a block, and the
number of bits in the last two words. -/
def padding (size : Nat) : List UInt8 :=
  let bits : UInt64 := UInt64.ofNat (8 * size)
  (0x80 : UInt8) :: List.replicate ((119 - size % 64) % 64) 0 ++
    wordBytes (bits >>> 32).toUInt32 ++ wordBytes bits.toUInt32

/-- Hashes the rest of a message, `absorbed` bytes of which are already in the state. -/
def finish (s : State) (absorbed : Nat) (rest : List UInt8) : State :=
  mixAll s (words (rest ++ padding (absorbed + rest.length)))

def State.bytes (s : State) : List UInt8 := s.words.flatMap wordBytes

def hash (message : List UInt8) : List UInt8 := (finish initial 0 message).bytes

@[simp] theorem length_bytes (s : State) : s.bytes.length = 32 := rfl

end GuardedStore.Digest.Sha256
