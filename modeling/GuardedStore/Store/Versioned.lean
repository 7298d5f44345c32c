import GuardedStore.Config.Storage
import GuardedStore.Log.CommitLog
import GuardedStore.Store.Batch

/-!
# Versioned stores

All values are kept in memory, each with the number of the commit that put it, and each commit is
logged before it takes effect.  A transaction works on the values as they were when it began and
collects what it writes.  When it commits, a written key whose number has changed since then is a
conflict: the first to commit wins, and the other one starts again, up to a number of attempts.

The steps of a transaction are functions of their own, `begin`, `validate`, `logCommit` and
`applyCommit`, so that it can be said what happens when transactions take turns.
-/

namespace GuardedStore

namespace Versioned

/-- A value with the number of the commit that put it. -/
structure Entry where
  value : String
  seq : UInt64
  deriving Repr, DecidableEq

/-- What has been committed. -/
structure Committed where
  entries : SortedMap String Entry
  seq : UInt64
  -- the size of all values, in bytes
  valueBytes : Nat
  deriving Repr, DecidableEq

namespace Committed

def empty : Committed := ⟨.empty, 0, 0⟩

instance : Inhabited Committed := ⟨empty⟩

def sizeAt (c : Committed) (key : String) : Nat :=
  match c.entries.get? key with
  | none => 0
  | some entry => entry.value.utf8ByteSize

def put (seq : UInt64) (c : Committed) (p : String × String) : Committed :=
  { c with
    entries := c.entries.insert p.1 ⟨p.2, seq⟩
    valueBytes := c.valueBytes + p.2.utf8ByteSize - c.sizeAt p.1 }

def delete (c : Committed) (key : String) : Committed :=
  { c with
    entries := c.entries.erase key
    valueBytes := c.valueBytes - c.sizeAt key }

/-- Commits a change under a number. -/
def apply (c : Committed) (seq : UInt64) (change : Log.Change) : Committed :=
  { change.deletes.foldl delete (change.puts.foldl (put seq) c) with seq }

def applyAll (c : Committed) (commits : List (UInt64 × Log.Change)) : Committed :=
  commits.foldl (fun c commit => c.apply commit.1 commit.2) c

/-- The change that puts all values at once. -/
def snapshot (c : Committed) : Log.Change :=
  ⟨c.entries.toList.map (fun e => (e.1, e.2.value)), []⟩

end Committed

/-- A transaction on the way: what it sees and what it is going to write. -/
structure Transaction where
  -- the number of the last commit that it sees
  base : UInt64
  snapshot : SortedMap String Entry
  puts : SortedMap String String
  deletes : SortedSet String
  deriving Repr

namespace Transaction

/-- Puts a value, which undoes a deletion. -/
def put (t : Transaction) (key value : String) : Transaction :=
  { t with puts := t.puts.insert key value, deletes := t.deletes.erase key }

/-- Deletes a key, which undoes a put. -/
def delete (t : Transaction) (key : String) : Transaction :=
  { t with puts := t.puts.erase key, deletes := SortedSet.add t.deletes key }

def isReadOnly (t : Transaction) : Bool := t.puts.isEmpty && t.deletes.isEmpty

def value? (t : Transaction) (key : String) : Option String :=
  (t.snapshot.get? key).map Entry.value

def valuesOf (t : Transaction) (batch : Batch) : Values :=
  readValues t.value? batch.read.keys

/-- Takes in what a batch writes. -/
def write (t : Transaction) (batch : Batch) : Transaction :=
  let t := batch.update.toList.foldl (fun t e => t.put e.1.text e.2) t
  batch.delete.keys.foldl (fun t key => t.delete key.text) t

/-- The first written key that has been committed again since the transaction began. -/
def conflict? (t : Transaction) (entries : SortedMap String Entry) : Option String :=
  (t.puts.keys ++ t.deletes.keys).find? (fun key =>
    (t.snapshot.get? key).map Entry.seq != (entries.get? key).map Entry.seq)

def change (t : Transaction) : Log.Change := ⟨t.puts.toList, t.deletes.keys⟩

end Transaction

/-- The transaction that begins with what has been committed. -/
def Committed.view (c : Committed) : Transaction := ⟨c.seq, c.entries, .empty, .empty⟩

end Versioned

/-- An open versioned store. -/
structure VersionedStore where
  log : CommitLog
  committed : Versioned.Committed
  closed : Bool
  -- how often a transaction is attempted
  maxAttempts : Nat
  conflicts : Nat
  deriving Repr

namespace VersionedStore

open Versioned

/-- The least number of frames of a log that is worth compacting. -/
def compactFrom : Nat := 1024

/-- Whether most frames of a log say nothing any more. -/
def needsCompaction (log : CommitLog) (committed : Committed) : Bool :=
  compactFrom ≤ log.frames && 2 * committed.entries.size < log.frames

def openAt (d : Disk) (path : String) (settings : StorageSettings) :
    Disk × Except StoreError VersionedStore :=
  match CommitLog.openAt d path with
  | (d, .error e) => (d, .error e)
  | (d, .ok (log, replay)) =>
    let committed := Committed.empty.applyAll replay.commits
    let attempts := max 1 settings.maxAttempts.toNat
    if needsCompaction log committed then
      match log.compact d committed.seq committed.snapshot with
      | .error e => (d, .error e)
      | .ok (d, log) => (d, .ok ⟨log, committed, false, attempts, 0⟩)
    else (d, .ok ⟨log, committed, false, attempts, 0⟩)

def ensureOpen (s : VersionedStore) : Except StoreError Unit :=
  if s.closed then .error .closed else .ok ()

def begin (s : VersionedStore) : Except StoreError Transaction :=
  match s.ensureOpen with
  | .error e => .error e
  | .ok () => .ok s.committed.view

/-- The number that the commit of a transaction gets, if it may be committed. -/
def validate (s : VersionedStore) (t : Transaction) : Except StoreError UInt64 :=
  match s.ensureOpen with
  | .error e => .error e
  | .ok () => match t.conflict? s.committed.entries with
    | some key => .error (.storageConflict (.changedKey key))
    | none => .ok (s.committed.seq + 1)

def logCommit (s : VersionedStore) (d : Disk) (seq : UInt64) (t : Transaction) :
    Except StoreError (VersionedStore × Disk) :=
  match s.log.append d seq t.change with
  | .error e => .error e
  | .ok (d, log) => .ok ({ s with log }, d)

/-- Lets a commit that is logged take effect. -/
def applyCommit (s : VersionedStore) (seq : UInt64) (t : Transaction) : VersionedStore :=
  { s with committed := s.committed.apply seq t.change }

/-- Commits a transaction; one that writes nothing has nothing to commit. -/
def commit (s : VersionedStore) (d : Disk) (t : Transaction) :
    Except StoreError (VersionedStore × Disk) :=
  if t.isReadOnly then .ok (s, d)
  else match s.validate t with
    | .error e => .error e
    | .ok seq => match s.logCommit d seq t with
      | .error e => .error e
      | .ok (s, d) => .ok (s.applyCommit seq t, d)

def attempt (s : VersionedStore) (d : Disk) (batch : Batch) :
    Except StoreError (VersionedStore × Disk × Values) :=
  match s.begin with
  | .error e => .error e
  | .ok t => match s.commit d (t.write batch) with
    | .error e => .error e
    | .ok (s, d) => .ok (s, d, t.valuesOf batch)

/-- Attempts a batch up to so many times, after a conflict if there has been one. -/
def retry (s : VersionedStore) (d : Disk) (batch : Batch) (last : Conflict) :
    Nat → VersionedStore × Disk × Except StoreError Values
  | 0 => (s, d, .error (.storage (.abandoned s.maxAttempts last)))
  | left + 1 => match s.attempt d batch with
    | .ok (s, d, values) => (s, d, .ok values)
    | .error (.storageConflict conflict) =>
      retry { s with conflicts := s.conflicts + 1 } d batch conflict left
    | .error e => (s, d, .error e)

def perform (s : VersionedStore) (d : Disk) (batch : Batch) :
    VersionedStore × Disk × Except StoreError Values :=
  s.retry d batch (.described "no attempt was made") s.maxAttempts

def get (s : VersionedStore) (key : Key) : Except StoreError (Option String) :=
  match s.begin with
  | .error e => .error e
  | .ok t => .ok (t.value? key.text)

def all (s : VersionedStore) : Except StoreError Values :=
  match s.begin with
  | .error e => .error e
  | .ok t => readStored (t.snapshot.toList.map (fun e => (e.1, e.2.value))) .empty

/-- The size of all values, in bytes. -/
def dataSize (s : VersionedStore) : Except StoreError Nat :=
  match s.ensureOpen with
  | .error e => .error e
  | .ok () => .ok s.committed.valueBytes

def keyCount (s : VersionedStore) : Except StoreError Nat :=
  match s.ensureOpen with
  | .error e => .error e
  | .ok () => .ok s.committed.entries.size

/-- Closes the store; to close it again does nothing. -/
def close (s : VersionedStore) : VersionedStore := { s with closed := true }

end VersionedStore

end GuardedStore
