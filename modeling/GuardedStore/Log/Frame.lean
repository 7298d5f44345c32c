import GuardedStore.Bytes
import GuardedStore.Digest.Crc32c

/-!
# Frames

A commit log is a header and then frames.  A frame is the length of what follows it in four bytes,
a sequence number in eight, a payload, and the checksum of all that in four.

`Frame.encode?` writes a frame and `Step.read` reads what stands at a position of some bytes: a
frame, the end, a frame that the bytes end in the middle of, or something that cannot be a frame.
`Scan.run` reads frame after frame until one of the other three.
-/

namespace GuardedStore.Log

structure Frame where
  seq : UInt64
  payload : ByteArray

namespace Frame

def overhead : Nat := 12

def largestBody : Nat := 64 * 1024 * 1024

def bodySize (f : Frame) : Nat := overhead + f.payload.size

def covered (f : Frame) : ByteArray :=
  Bytes.ofNat 4 f.bodySize ++ Bytes.ofNat 8 f.seq.toNat ++ f.payload

def sealed (covered : ByteArray) : ByteArray :=
  covered ++ Bytes.ofNat 4 (Digest.Crc32c.checksum covered 0 covered.size).toNat

/-- The bytes of a frame, if it is not too long. -/
def encode? (f : Frame) : Option ByteArray :=
  if largestBody < f.bodySize then none else some (sealed f.covered)

end Frame

inductive Step where
  | finished
  -- the bytes end before the frame does
  | truncated
  -- the announced length or the checksum is wrong
  | corrupt
  -- A frame, and the position after it
  | frame (f : Frame) (next : Nat)

/-- Reads what stands at a position. -/
def Step.read (bytes : ByteArray) (pos : Nat) : Step :=
  if bytes.size ≤ pos then finished
  else if bytes.size < pos + 4 then truncated
  else
    let size := Bytes.natAt bytes pos 4
    if size < Frame.overhead ∨ Frame.largestBody < size then corrupt
    else if bytes.size < pos + 4 + size then truncated
    else if Bytes.natAt bytes (pos + size) 4
        ≠ (Digest.Crc32c.checksum bytes pos (pos + size)).toNat then corrupt
    else
      frame ⟨UInt64.ofNat (Bytes.natAt bytes (pos + 4) 8), bytes.extract (pos + 12) (pos + size)⟩
        (pos + 4 + size)

/-- A frame ends after it starts and within the bytes. -/
theorem Step.lt_of_read_frame {bytes : ByteArray} {pos next : Nat} {f : Frame}
    (h : read bytes pos = .frame f next) : pos < next ∧ next ≤ bytes.size := by
  unfold read at h
  split at h
  · cases h
  split at h
  · cases h
  simp only at h
  split at h
  · cases h
  split at h
  · cases h
  split at h
  · cases h
  injection h with _ h
  omega

/-- What stops the reading of frames. -/
inductive Stop where
  | finished
  | truncated
  | corrupt
  deriving Repr, DecidableEq

/-- Frames that stand one after the other. -/
structure Scan where
  -- the frames, each with the position after it
  frames : List (Frame × Nat)
  stop : Stop

/-- Reads frames from a position on. -/
def Scan.run (bytes : ByteArray) (pos : Nat) : Scan :=
  match _step : Step.read bytes pos with
  | .finished => ⟨[], .finished⟩
  | .truncated => ⟨[], .truncated⟩
  | .corrupt => ⟨[], .corrupt⟩
  | .frame f next =>
    let rest := Scan.run bytes next
    ⟨(f, next) :: rest.frames, rest.stop⟩
termination_by bytes.size - pos
decreasing_by
  have := Step.lt_of_read_frame _step
  omega

/-- Where the frames that were read from a position end. -/
def Scan.stopAt (s : Scan) (pos : Nat) : Nat := (s.frames.getLast?.map (·.2)).getD pos

end GuardedStore.Log
