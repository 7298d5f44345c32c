import GuardedStore.Disk
import GuardedStore.Log.Replay

/-!
# Commit logs

A commit log on a disk.  It is opened once, and then each commit is one more frame at its end.  When
the system fails to write a frame, some of it may be in the file; nothing is added after that, so
that the rest of such a frame is always the last thing in the file.

A log can also be replaced by one that has all it says in a single frame; the new file takes the
name of the old one, which whoever has opened it goes on using.
-/

namespace GuardedStore

structure CommitLog where
  -- the path under which it was opened
  path : String
  file : Nat
  frames : Nat
  -- whether a frame could not be written
  poisoned : Bool
  deriving Repr, DecidableEq

namespace CommitLog

/-- Opens the log with a path, which is made if it is missing, and tells what it says.  The disk is
changed also by an attempt that fails, in that directories and an empty file may be made. -/
def openAt (d : Disk) (path : String) : Disk × Except StoreError (CommitLog × Log.Replay) :=
  match d.makeParents path with
  | (d, false) => (d, .error (.io "no directory"))
  | (d, true) => match d.open? path with
    | none => (d, .error (.io "no file"))
    | some (d, file) => match Log.recover path (d.bytes file) with
      | .error e => (d, .error e)
      | .ok (bytes, replay) =>
        (d.setContent file (.bytes bytes), .ok (⟨path, file, replay.commits.length, false⟩, replay))

def append (log : CommitLog) (d : Disk) (seq : UInt64) (change : Log.Change) :
    Except StoreError (Disk × CommitLog) :=
  if log.poisoned then .error (.storage (.brokenLog log.path))
  else match Log.Frame.encode? ⟨seq, change.pack⟩ with
    | none => .error (.storage (.largeCommit seq))
    | some frame => .ok (d.append log.file frame, { log with frames := log.frames + 1 })

/-- What is left when the system fails to write a frame after some of its bytes. -/
def breakOff (log : CommitLog) (d : Disk) (frame : ByteArray) (written : Nat) : Disk × CommitLog :=
  (d.append log.file (frame.extract 0 written), { log with poisoned := true })

def compact (log : CommitLog) (d : Disk) (seq : UInt64) (change : Log.Change) :
    Except StoreError (Disk × CommitLog) :=
  match Log.Frame.encode? ⟨seq, change.pack⟩ with
  | none => .error (.storage .largeSnapshot)
  | some frame => match d.replace? log.path (.bytes (Log.header ++ frame)) with
    | none => .error (.io "no file")
    | some (d, file) => .ok (d, { log with file, frames := 1, poisoned := false })

end CommitLog

end GuardedStore
