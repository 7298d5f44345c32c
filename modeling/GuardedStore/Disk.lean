import GuardedStore.Bytes
import GuardedStore.Table.Image

/-!
# Disks

A tree of directories and files, as far as stores need one.  A name leads to a file by a number,
and the contents are kept under the number: who has opened a file goes on using it when its name is
removed or given to another file.

Paths are relative.  Their parts are separated by slashes; empty parts and `.` stay where they are
and `..` goes up.  A path is usually walked from directory to directory; `resolve?` follows it by
its text instead, as databases do.
-/

namespace GuardedStore

inductive Content where
  | bytes (b : ByteArray)
  | database (image : Table.Image)

namespace Content

def empty : Content := bytes .empty

instance : Inhabited Content := ⟨empty⟩

/-- The contents as plain bytes; of a database only what it starts with is told. -/
def raw : Content → ByteArray
  | bytes b => b
  | database image => if image = .blank then .empty else Table.Image.magic.toUTF8

/-- The contents with bytes added at the end, which a database does not notice. -/
def append : Content → ByteArray → Content
  | bytes a, b => bytes (a ++ b)
  | database image, b => if image = .blank then bytes b else database image

/-- Whether a database would begin here: nothing is held, or no more than a single byte. -/
def isVoid : Content → Bool
  | bytes b => b.size ≤ 1
  | database image => image = .blank

/-- The database that is held, if it is one. -/
def image? : Content → Option Table.Image
  | bytes b => if b.size ≤ 1 then some .blank else none
  | database image => some image

end Content

/-- What a name leads to. -/
inductive DiskEntry where
  | directory
  | file (id : Nat)
  deriving Repr, DecidableEq

structure Disk where
  entries : SortedMap String DiskEntry
  contents : SortedMap Nat Content
  -- the number of the next new file
  next : Nat
  -- how long the path of the directory is in which all paths start, in bytes
  home : Nat

namespace Disk

/-- No files, in the top directory. -/
def empty : Disk := ⟨.empty, .empty, 0, 0⟩

instance : EmptyCollection Disk := ⟨empty⟩

instance : Inhabited Disk := ⟨empty⟩

/-! ## Paths -/

def parts (path : String) : List String := (path.toList.splitOn '/').map String.ofList

/-- The greatest length of a name, in bytes. -/
def longestName : Nat := 255

/-- The greatest length of a path, in bytes. -/
def longestPath : Nat := 4095

/-- Whether a text can be a path. -/
def isPath (path : String) : Bool :=
  path != "" && !path.toList.contains '\x00' && path.utf8ByteSize ≤ longestPath

/-- Whether a part of a path leads nowhere else. -/
def isIdle (part : String) : Bool := part == "" || part == "."

def isName (part : String) : Bool :=
  !isIdle part && part != ".." && !part.toList.contains '\x00' && part.utf8ByteSize ≤ longestName

/-- The path in front of the last name of a path. -/
def parent (path : String) : String :=
  let front := ((parts path).reverse.dropWhile isIdle).drop 1
  "/".intercalate (front.dropWhile isIdle).reverse

def pathOf (names : List String) : String := "/".intercalate names

/-- What stands under some names. -/
def entryAt? (d : Disk) (names : List String) : Option DiskEntry :=
  if names.isEmpty then some .directory else d.entries.get? (pathOf names)

/-- Goes from directory to directory. -/
def walk (d : Disk) (here : List String) : List String → Option (List String)
  | [] => some here
  | part :: rest =>
    if isIdle part then walk d here rest
    else if part = ".." then walk d here.dropLast rest
    else match d.entryAt? (here ++ [part]) with
      | some .directory => walk d (here ++ [part]) rest
      | _ => none

/-- The names under which a file with a path is found or can be made. -/
def place? (d : Disk) (path : String) : Option (List String) :=
  match (parts path).getLast? with
  | none => none
  | some last =>
    if isPath path && isName last then (d.walk [] (parts path).dropLast).map (· ++ [last])
    else none

def find? (d : Disk) (path : String) : Option Nat :=
  match (d.place? path).bind d.entryAt? with
  | some (.file id) => some id
  | _ => none

def isDirectory (d : Disk) (path : String) : Bool :=
  isPath path && (d.walk [] (parts path)).isSome

/-- Follows the parts of a path by their text: directories need not be there, but nothing is looked
for in a file, and the way does not lead out of the directory in which all paths start. -/
def follow (d : Disk) (here : List String) : List String → Option (List String)
  | [] => some here
  | part :: rest =>
    if isIdle part then follow d here rest
    else if part = ".." then
      match here with
      | [] => none
      | _ :: _ => follow d here.dropLast rest
    else match d.entryAt? here with
      | some (.file _) => none
      | some .directory =>
        if part.utf8ByteSize ≤ longestName then follow d (here ++ [part]) rest else none
      | none => follow d (here ++ [part]) rest

/-- The names that a path leads to by its text. -/
def resolve? (d : Disk) (path : String) : Option (List String) := d.follow [] (parts path)

/-- The length of the whole path of some names, in bytes. -/
def pathLength (d : Disk) (names : List String) : Nat :=
  names.foldl (fun n name => n + 1 + name.utf8ByteSize) d.home

/-! ## Contents -/

def content (d : Disk) (id : Nat) : Content := (d.contents.get? id).getD .empty

def setContent (d : Disk) (id : Nat) (c : Content) : Disk :=
  { d with contents := d.contents.insert id c }

def bytes (d : Disk) (id : Nat) : ByteArray := (d.content id).raw

def append (d : Disk) (id : Nat) (b : ByteArray) : Disk :=
  d.setContent id ((d.content id).append b)

/-! ## Making and removing -/

/-- Makes the directories on the way that are missing, as far as that is possible, and tells whether
the way is there. -/
def makeWay (d : Disk) (here : List String) : List String → Disk × Bool
  | [] => (d, true)
  | part :: rest =>
    if isIdle part then makeWay d here rest
    else if part = ".." then makeWay d here.dropLast rest
    else
      let names := here ++ [part]
      match d.entryAt? names with
      | some .directory => makeWay d names rest
      | some (.file _) => (d, false)
      | none =>
        if isName part then
          makeWay { d with entries := d.entries.insert (pathOf names) .directory } names rest
        else (d, false)

def makeDirectory (d : Disk) (path : String) : Disk × Bool :=
  if path = "" then (d, true)
  else if isPath path then d.makeWay [] (parts path)
  else (d, false)

def makeParents (d : Disk) (path : String) : Disk × Bool := d.makeDirectory (parent path)

/-- Puts a new file under some names, in the place of one that is there. -/
def place (d : Disk) (names : List String) (c : Content) : Disk × Nat :=
  ({ d with
      entries := d.entries.insert (pathOf names) (.file d.next)
      contents := d.contents.insert d.next c
      next := d.next + 1 }, d.next)

def canHold (d : Disk) (names : List String) : Bool :=
  d.entryAt? names.dropLast = some .directory && names.getLast?.any isName

/-- Opens the file under some names, which is made if it is missing and wanted. -/
def openNamed? (d : Disk) (names : List String) (wanted : Bool) : Option (Disk × Nat) :=
  match d.entryAt? names with
  | some .directory => none
  | some (.file id) => some (d, id)
  | none => if wanted then some (d.place names .empty) else none

/-- Opens the file with a path, which is made if it is missing. -/
def open? (d : Disk) (path : String) : Option (Disk × Nat) :=
  match d.place? path with
  | none => none
  | some names => d.openNamed? names true

/-- Puts a new file under a path, in the place of one that is there. -/
def replace? (d : Disk) (path : String) (c : Content) : Option (Disk × Nat) :=
  match d.place? path with
  | none => none
  | some names => match d.entryAt? names with
    | some .directory => none
    | _ => some (d.place names c)

/-- Removes the file under some names, if there is one. -/
def forget (d : Disk) (names : List String) : Disk :=
  match d.entryAt? names with
  | some (.file _) => { d with entries := d.entries.erase (pathOf names) }
  | _ => d

def remove? (d : Disk) (path : String) : Option Disk :=
  match d.place? path with
  | none => none
  | some names => match d.entryAt? names with
    | some (.file _) => some (d.forget names)
    | _ => none

end Disk

end GuardedStore
