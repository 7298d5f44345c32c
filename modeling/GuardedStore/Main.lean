import GuardedStore.CommandLine
import GuardedStore.Table.Saved

/-!
# The program

Reads the files that the arguments name, runs the command on them, writes the files that it has
changed and prints what it says.
-/

namespace GuardedStore.Program

/-- What is found under a path in the file system: a file, something that is none, or nothing. -/
def contentAt (path : String) : IO (Option (Option Content)) := do
  try
    return some (some (.ofSaved (← IO.FS.readBinFile path)))
  catch
    | .noFileOrDirectory .. => return none
    | _ => return some none

/-- The paths of the files that a text may stand for: as a path, and as where a database is. -/
def files (text : String) : List String :=
  match Table.Address.ofText? text with
  | none => [text]
  | some a => match Disk.empty.resolve? a.path with
    | none => [text]
    | some names =>
      let top := if a.path.toList.head? = some '/' then "/" else ""
      [text, top ++ Disk.pathOf names]

def load (d : Disk) (path : String) : IO Disk := do
  match ← contentAt path with
  | none => return d
  | some none => return (d.makeDirectory path).1
  | some (some content) =>
    let (d, _) := d.makeParents path
    match d.open? path with
    | none => return d
    | some (d, file) => return d.setContent file content

/-- Writes a file of a disk to the file system, if it is not there already. -/
def save (before after : Disk) (path : String) : IO Unit := do
  match after.find? path with
  | none => return
  | some file =>
    let bytes := (after.content file).saved
    let old := (before.find? path).map (fun file => (before.content file).saved)
    if old.map Bytes.toList ≠ some (Bytes.toList bytes) then
      let parent := "/".intercalate (Disk.parts path).dropLast
      if parent ≠ "" then IO.FS.createDirAll parent
      IO.FS.writeBinFile path bytes

end GuardedStore.Program

open GuardedStore in
def main (args : List String) : IO UInt32 := do
  let paths := (CommandLine.paths args).flatMap Program.files
  let home := (← IO.currentDir).toString.utf8ByteSize
  let before ← paths.foldlM Program.load { Disk.empty with home }
  let salt ← IO.getRandomBytes 16
  let (after, outcome) := CommandLine.run before (Bytes.toList salt) args
  paths.forM (Program.save before after)
  (← IO.getStdout).putStr outcome.out
  (← IO.getStderr).putStr outcome.err
  return UInt32.ofNat outcome.code
