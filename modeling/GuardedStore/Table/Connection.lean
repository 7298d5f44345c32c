import GuardedStore.Disk
import GuardedStore.Error.Basic
import GuardedStore.Table.Address

/-!
# Connections to databases

A connection finds the file of a database and reads its state, and it can save a new state.  Three
files beside that of the database belong to it while there is a connection.  The journal is kept
during a change that is not logged ahead.  The log takes the changes that are, and its index goes
with it.  What another owner has left under these names is in the way, or is cleared away; nothing
that is found there is ever taken for a change.

A connection is over when its work is done, so the files beside the database are gone again when
`connect` returns, unless the database may only be read.
-/

namespace GuardedStore.Table

open Disk (isName)

/-- A connection to a database. -/
structure Connection where
  image : Image
  -- the names of the file and its number, if there is a file
  file : Option (List String × Nat)
  writable : Bool
  -- whether changes can be logged ahead
  canLog : Bool
  logs : Bool
  -- whether the index of the log cannot be written, so that no change can begin
  blocked : Bool

namespace Connection

/-- The longest path of a file with those beside it, in bytes. -/
def longestPath : Nat := 504

def beside (names : List String) (ending : String) : List String :=
  names.dropLast ++ [names.getLast?.getD "" ++ ending]

def journal (names : List String) : List String := beside names "-journal"

def log (names : List String) : List String := beside names "-wal"

def index (names : List String) : List String := beside names "-shm"

def canWriteTo (d : Disk) (names : List String) : Bool :=
  d.entryAt? names != some .directory && names.getLast?.any isName

/-- Puts an empty file under some names, if nothing is there. -/
def leave (d : Disk) (names : List String) : Disk :=
  match d.entryAt? names with
  | none => (d.place names .empty).1
  | some _ => d

/-- Clears away a journal that was left.  One that begins with a byte other than zero is as if the
last change had to be taken back, for which the database must be writable. -/
def clearJournal? (d : Disk) (names : List String) (void writable : Bool) : Option Disk :=
  match d.entryAt? (journal names) with
  | none => some d
  | some .directory => if void then some d else none
  | some (.file id) =>
    let left := d.bytes id
    if left.size = 0 ∨ (!void && Bytes.byteAt left 0 = 0) then some d
    else if writable then some (d.forget (journal names))
    else if void then some d else none

/-- Looks at a log that was left, and tells whether there is one to go on with.  To a database that
is void it cannot belong. -/
def clearLog? (d : Disk) (names : List String) (void : Bool) : Option (Disk × Bool) :=
  match d.entryAt? (log names) with
  | none => some (d, false)
  | some .directory => none
  | some (.file id) =>
    if (d.bytes id).size = 0 then some (d, false)
    else if void then some (d.forget (log names), false)
    else some (d, true)

/-- The length of the head of a log, in bytes. -/
def logHead : Nat := 32

/-- Whether a log that was left is too short to say anything. -/
def isMute (d : Disk) (names : List String) : Bool :=
  match d.entryAt? (log names) with
  | some (.file id) => (d.bytes id).size < logHead
  | _ => true

/-- Keeps a log as long as there is the connection, and tells whether it can be written.  Without an
index that can be written, a log that says something cannot even be read. -/
def keepLog? (d : Disk) (names : List String) (writable : Bool) : Option (Disk × Bool) :=
  if canWriteTo d (log names) then
    let blocked := d.entryAt? (index names) = some .directory
    if blocked && !isMute d names then none
    else if writable && !blocked then some ((d.forget (log names)).forget (index names), true)
    else some (leave (leave d (log names)) (index names), !blocked)
  else none

/-- The error if a file or one beside it cannot be used. -/
def unusable : StoreError := .database "unable to open database file"

def notADatabase : StoreError := .database "file is not a database"

def readOnly : StoreError := .database "attempt to write a readonly database"

def attach (d : Disk) (a : Address) (names : List String) (id : Nat) :
    Disk × Except StoreError Connection :=
  let void := (d.content id).isVoid
  match clearJournal? d names void a.isWritable with
  | none => (d, .error unusable)
  | some d => match clearLog? d names void with
    | none => (d, .error unusable)
    | some (d, found) =>
      let image := (d.content id).image?
      if found || image.any Image.writeAhead then
        if a.canLog then
          match keepLog? d names a.isWritable, image with
          | none, _ => (d, .error unusable)
          | some (d, _), none => (d, .error notADatabase)
          | some (d, free), some image =>
            (d, .ok ⟨image, some (names, id), a.isWritable && free, true, true,
              a.isWritable && !free⟩)
        else (d, .error unusable)
      else match image with
        | none => (d, .error notADatabase)
        | some image =>
          (d, .ok ⟨image, some (names, id), a.isWritable, a.canLog, false, false⟩)

/-- Connects to the database in a file that nobody changes: nothing beside it is looked at. -/
def attachFrozen (d : Disk) (names : List String) (id : Nat) : Except StoreError Connection :=
  match (d.content id).image? with
  | none => .error notADatabase
  | some image => .ok ⟨image, some (names, id), false, false, false, false⟩

def connectTo (d : Disk) (a : Address) : Disk × Except StoreError Connection :=
  if a.isFleeting then (d, .ok ⟨.blank, none, a.isWritable, false, false, false⟩)
  else match d.resolve? a.path with
    | none => (d, .error unusable)
    | some names =>
      if longestPath < d.pathLength names then (d, .error unusable)
      else match d.openNamed? names (a.access = .create && d.canHold names) with
        | none => (d, .error unusable)
        | some (d, id) =>
          if a.frozen then (d, attachFrozen d names id) else attach d a names id

end Connection

/-- Connects to the database that a text tells to find.  Its file is made if it is missing. -/
def connect (d : Disk) (text : String) : Disk × Except StoreError Connection :=
  match Address.ofText? text with
  | none => (d, .error Connection.unusable)
  | some a => Connection.connectTo d a

namespace Connection

/-! ## Changing the state -/

def begin (c : Connection) : Except StoreError Unit :=
  if c.blocked then .error readOnly else .ok ()

/-- Saves a new state, with a journal for the time of the change unless it is logged ahead. -/
def save (c : Connection) (d : Disk) (image : Image) : Except StoreError Disk :=
  if c.writable then
    match c.file with
    | none => .ok d
    | some (names, id) =>
      if c.logs then .ok (d.setContent id (.database image))
      else if canWriteTo d (journal names) then
        .ok ((d.forget (journal names)).setContent id (.database image))
      else .error unusable
  else .error readOnly

/-- Logs changes ahead from now on, if that is possible.  The file remembers it. -/
def startLog (c : Connection) (d : Disk) : Disk × Except StoreError Connection :=
  if c.canLog && !c.logs then
    match c.file with
    | none => (d, .ok c)
    | some (names, _) =>
      let image := { c.image with writeAhead := true }
      match c.save d image with
      | .error e => (d, .error e)
      | .ok d => match keepLog? d names c.writable with
        | none => (d, .error unusable)
        | some (d, free) =>
          (d, .ok { c with image, writable := free, logs := true, blocked := !free })
  else (d, .ok c)

end Connection

end GuardedStore.Table
