import GuardedStore.Store.Kind
import GuardedStore.Store.Tabular
import GuardedStore.Store.Versioned

/-!
# Stores

A store of either kind.  What it is asked is answered alike, apart from failures that only one of
the kinds can have; `copy` carries all values from one store to another.
-/

namespace GuardedStore

inductive Store where
  | versioned (s : VersionedStore)
  | tabular (s : TabularStore)
  deriving Repr

namespace Store

def kind : Store → StoreKind
  | versioned _ => .versioned
  | tabular _ => .tabular

/-- Opens the store with a path, which is made if it is missing. -/
def openAt (d : Disk) (kind : StoreKind) (path : String) (settings : StorageSettings) :
    Disk × Except StoreError Store :=
  match kind with
  | .versioned =>
    let (d, r) := VersionedStore.openAt d path settings
    (d, r.map versioned)
  | .tabular =>
    let (d, r) := TabularStore.openAt d path
    (d, r.map tabular)

def get (s : Store) (d : Disk) (key : Key) : Disk × Except StoreError (Option String) :=
  match s with
  | versioned s => (d, s.get key)
  | tabular s => s.get d key

def all (s : Store) (d : Disk) : Disk × Except StoreError Values :=
  match s with
  | versioned s => (d, s.all)
  | tabular s => s.all d

/-- Carries out a batch: tells the values of the keys to read as they were before, updates keys, and
then deletes keys. -/
def perform (s : Store) (d : Disk) (batch : Batch) : Store × Disk × Except StoreError Values :=
  match s with
  | versioned s =>
    let (s, d, r) := s.perform d batch
    (versioned s, d, r)
  | tabular s =>
    let (d, r) := s.perform d batch
    (tabular s, d, r)

/-- The size of all values, in bytes. -/
def dataSize (s : Store) (d : Disk) : Disk × Except StoreError Nat :=
  match s with
  | versioned s => (d, s.dataSize)
  | tabular s => s.dataSize d

def keyCount (s : Store) (d : Disk) : Disk × Except StoreError Nat :=
  match s with
  | versioned s => (d, s.keyCount)
  | tabular s => s.keyCount d

/-- Closes the store; to close it again does nothing. -/
def close (s : Store) (d : Disk) : Store × Disk × Except StoreError Unit :=
  match s with
  | versioned s => (versioned s.close, d, .ok ())
  | tabular s =>
    let (s, d, r) := s.close d
    (tabular s, d, r)

def isClosed : Store → Bool
  | versioned s => s.closed
  | tabular s => s.closed

/-- Puts all values of one store into another in one transaction, and tells how many they are.  Keys
of the other store that are not among them keep their values. -/
def copy (source target : Store) (d : Disk) : Store × Disk × Except StoreError Nat :=
  match source.all d with
  | (d, .error e) => (target, d, .error e)
  | (d, .ok values) =>
    let (target, d, r) := target.perform d { Batch.empty with update := values }
    (target, d, r.map (fun _ => values.size))

end Store

end GuardedStore
