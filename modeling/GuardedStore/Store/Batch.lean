import GuardedStore.Error.Basic
import GuardedStore.SortedMap

/-!
# Batches

One atomic piece of work for a store: the values of some keys are read, then some keys are given
new values, then some keys are deleted.
-/

namespace GuardedStore

abbrev Values := SortedMap Key String

def readValues (value? : String → Option String) (keys : List Key) : Values :=
  keys.foldl (fun values key => match value? key.text with
    | some value => values.insert key value
    | none => values) .empty

/-- Keys to read, keys to update with their new values, and keys to delete. -/
structure Batch where
  read : SortedSet Key
  update : SortedMap Key String
  delete : SortedSet Key
  deriving Repr, DecidableEq

namespace Batch

def empty : Batch := ⟨.empty, .empty, .empty⟩

instance : Inhabited Batch := ⟨empty⟩

def reading (key : Key) : Batch := { empty with read := .singleton key () }

def updating (key : Key) (value : String) : Batch := { empty with update := .singleton key value }

def deleting (key : Key) : Batch := { empty with delete := .singleton key () }

def isReadOnly (b : Batch) : Bool := b.update.isEmpty && b.delete.isEmpty

def isEmpty (b : Batch) : Bool := b.read.isEmpty && b.isReadOnly

/-- The names of the keys to update, with their new values. -/
def updates (b : Batch) : List (String × String) := b.update.toList.map (fun e => (e.1.text, e.2))

def deletions (b : Batch) : List String := b.delete.keys.map Key.text

/-- What the batch makes of the values under some names: it updates, and then deletes. -/
def writeTo (b : Batch) (contents : SortedMap String String) : SortedMap String String :=
  (contents.insertAll b.updates).eraseAll b.deletions

/-- What the batch reads from the values under some names. -/
def readFrom (b : Batch) (contents : SortedMap String String) : Values :=
  readValues contents.get? b.read.keys

end Batch

/-- The keys that stored names spell, with their values.  A store takes in keys only, so a name that
spells none is damage. -/
def readStored : List (String × String) → Values → Except StoreError Values
  | [], values => .ok values
  | (name, value) :: rest, values => match Key.create name with
    | .error fault => .error (.storage (.invalidKey name fault))
    | .ok key => readStored rest (values.insert key value)

end GuardedStore
