import GuardedStore.Disk
import GuardedStore.Store.Batch
import GuardedStore.Table.Bootstrap
import GuardedStore.Table.Connection

/-!
# Tabular stores

All values are kept in the table of a database file.  Each call opens the file, works on the table
in one transaction and lets go of the file, so nothing but the path is remembered between calls.
-/

namespace GuardedStore

/-- An open tabular store. -/
structure TabularStore where
  path : String
  closed : Bool
  deriving Repr, DecidableEq

namespace TabularStore

open Table (Connection Image)

/-- Opens the store with a path.  It is settled that changes are logged ahead before it is known
whether the file can be taken up. -/
def openAt (d : Disk) (path : String) : Disk × Except StoreError TabularStore :=
  match d.makeParents path with
  | (d, false) => (d, .error (.io "no directory"))
  | (d, true) => match Table.connect d path with
    | (d, .error e) => (d, .error e)
    | (d, .ok c) => match c.startLog d with
      | (d, .error e) => (d, .error e)
      | (d, .ok c) => match c.begin, c.image.bootstrap path with
        | .error e, _ => (d, .error e)
        | .ok (), .error e => (d, .error e)
        | .ok (), .ok image => match c.save d image with
          | .error e => (d, .error e)
          | .ok d => (d, .ok ⟨path, false⟩)

def connectOpen (s : TabularStore) (d : Disk) : Disk × Except StoreError Connection :=
  if s.closed then (d, .error .closed) else Table.connect d s.path

def rows (image : Image) : Except StoreError (SortedMap String String) :=
  match image.rows with
  | none => .error (.database "no such table")
  | some rows => .ok rows

def query {α : Type} (s : TabularStore) (d : Disk)
    (ask : SortedMap String String → Except StoreError α) : Disk × Except StoreError α :=
  match s.connectOpen d with
  | (d, .error e) => (d, .error e)
  | (d, .ok c) => (d, (rows c.image).bind ask)

def get (s : TabularStore) (d : Disk) (key : Key) : Disk × Except StoreError (Option String) :=
  s.query d (fun rows => .ok (rows.get? key.text))

def all (s : TabularStore) (d : Disk) : Disk × Except StoreError Values :=
  s.query d (fun rows => readStored rows.toList .empty)

def perform (s : TabularStore) (d : Disk) (batch : Batch) : Disk × Except StoreError Values :=
  match s.connectOpen d with
  | (d, .error e) => (d, .error e)
  | (d, .ok c) => match c.begin, rows c.image with
    | .error e, _ => (d, .error e)
    | .ok (), .error e => (d, .error e)
    | .ok (), .ok table => match c.save d { c.image with rows := some (batch.writeTo table) } with
      | .error e => (d, .error e)
      | .ok d => (d, .ok (batch.readFrom table))

/-- The size of all values, in bytes. -/
def dataSize (s : TabularStore) (d : Disk) : Disk × Except StoreError Nat :=
  s.query d (fun rows => .ok (rows.values.foldl (fun n value => n + value.utf8ByteSize) 0))

def keyCount (s : TabularStore) (d : Disk) : Disk × Except StoreError Nat :=
  s.query d (fun rows => .ok rows.size)

/-- Closes the store, for which it connects to the database once more; to close it again does
nothing. -/
def close (s : TabularStore) (d : Disk) : TabularStore × Disk × Except StoreError Unit :=
  if s.closed then (s, d, .ok ())
  else
    let s := { s with closed := true }
    match Table.connect d s.path with
    | (d, .error e) => (s, d, .error e)
    | (d, .ok _) => (s, d, .ok ())

end TabularStore

end GuardedStore
