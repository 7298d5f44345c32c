import GuardedStore.Error.Basic
import GuardedStore.Text.Blank

/-!
# Kinds of stores

There are two kinds of stores: one that keeps all values in memory and logs each commit to a file,
and one that keeps a table in a database file.
-/

namespace GuardedStore

/-- How a store keeps its values. -/
inductive StoreKind where
  -- in memory, with a log of commits
  | versioned
  | tabular
  deriving Repr, DecidableEq

namespace StoreKind

def text : StoreKind → String
  | versioned => "MVSTORE"
  | tabular => "SQLITE"

def standard : StoreKind := versioned

instance : Inhabited StoreKind := ⟨standard⟩

def all : List StoreKind := [versioned, tabular]

/-- The kind that a text names, in either case and with blanks around it. -/
def parse (raw : String) : Except StoreError StoreKind :=
  match all.find? (fun kind => Text.equalIgnoringCase kind.text (Text.trim raw)) with
  | some kind => .ok kind
  | none => .error (.config (.unknownKind raw))

end StoreKind

end GuardedStore
