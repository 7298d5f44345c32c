import GuardedStore.Error.Basic
import GuardedStore.Log.Change
import GuardedStore.Log.Frame

/-!
# Replaying a commit log

The bytes of a log are a header and the frames of commits in ascending order.  A frame that the
bytes end in the middle of is what is left of a commit that was never finished, and is cut off.
Whatever else is wrong is damage, and the log is refused.
-/

namespace GuardedStore.Log

/-- What a log starts with: the letters `LKVL`. -/
def magic : Nat := 0x4C4B564C

def headerSize : Nat := 8

def header : ByteArray := Bytes.ofNat 4 magic ++ Bytes.ofNat 4 newestLogFormat

/-- What the bytes of a log say. -/
structure Replay where
  commits : List (UInt64 × Change)
  -- the number of the last commit, zero if there is none
  lastSeq : UInt64
  wholeSize : Nat
  -- how many bytes of an unfinished frame follow
  tornSize : Nat

namespace Replay

def new : Replay := ⟨[], 0, headerSize, 0⟩

instance : Inhabited Replay := ⟨new⟩

/-- The number of the last of some commits, or else a number from before. -/
def lastOf (before : UInt64) (commits : List (UInt64 × Change)) : UInt64 :=
  (commits.getLast?.map (·.1)).getD before

end Replay

/-- The commits in frames that come after a commit with a number. -/
def readCommits (path : String) (last : UInt64) :
    List (Frame × Nat) → Except StoreError (List (UInt64 × Change))
  | [] => .ok []
  | (f, _) :: rest =>
    if f.seq ≤ last then .error (.storage (.corruptLog path .unorderedCommit))
    else match Change.unpack? f.payload with
      | none => .error (.decoding "not a commit record")
      | some change => match readCommits path f.seq rest with
        | .error e => .error e
        | .ok commits => .ok ((f.seq, change) :: commits)

def checkHeader (path : String) (bytes : ByteArray) : Except StoreError Unit :=
  if bytes.size < headerSize then .error (.storage (.corruptLog path .shortHeader))
  else if Bytes.natAt bytes 0 4 ≠ magic then .error (.storage (.notALog path))
  else
    let version := Bytes.natAt bytes 4 4
    if newestLogFormat < version then .error (.storage (.laterFormat path version)) else .ok ()

/-- What the bytes of a log that is not empty say. -/
def replay (path : String) (bytes : ByteArray) : Except StoreError Replay :=
  match checkHeader path bytes with
  | .error e => .error e
  | .ok () =>
    let scan := Scan.run bytes headerSize
    let whole := scan.stopAt headerSize
    match readCommits path 0 scan.frames with
    | .error e => .error e
    | .ok commits =>
      let last := Replay.lastOf 0 commits
      match scan.stop with
      | .corrupt => .error (.storage (.corruptLog path .badFrame))
      | .finished => .ok ⟨commits, last, whole, 0⟩
      | .truncated => .ok ⟨commits, last, whole, bytes.size - whole⟩

/-- The bytes of a log that is opened, and what they say: an empty file gets a header, and an
unfinished frame is cut off. -/
def recover (path : String) (bytes : ByteArray) : Except StoreError (ByteArray × Replay) :=
  if bytes.size = 0 then .ok (header, .new)
  else match replay path bytes with
    | .error e => .error e
    | .ok r => .ok (if r.tornSize = 0 then bytes else bytes.extract 0 r.wholeSize, r)

end GuardedStore.Log
