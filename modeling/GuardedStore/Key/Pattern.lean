import GuardedStore.Key.Basic

/-!
# Patterns of keys

A pattern is an exact path or, with a wildcard `*` as its last character, all paths that start
with what stands before the wildcard.  Runs of slashes are collapsed as in a key, but a slash at
the end of a pattern stays.
-/

namespace GuardedStore.Key

/-- A set of keys: the key with one text, or all keys whose text starts with it. -/
structure Pattern where
  stem : String
  -- whether all that starts with the stem belongs to the pattern
  wildcard : Bool
  deriving Repr, DecidableEq

namespace Pattern

def create (raw : String) : Except Fault Pattern :=
  match AbsolutePath.create raw.toList with
  | .error fault => .error fault
  | .ok ⟨path, _, _, _⟩ =>
    let isOpen := path.getLast? == some '*'
    let stem := if isOpen then path.dropLast else path
    if '*' ∈ stem then .error .misplacedWildcard
    else .ok ⟨String.ofList stem, isOpen⟩

def display (p : Pattern) : String :=
  if p.wildcard then p.stem ++ "*" else p.stem

instance : ToString Pattern := ⟨display⟩

def covers (p : Pattern) (key : Key) : Bool :=
  if p.wildcard then p.stem.toList.isPrefixOf key.text.toList else key.text == p.stem

end Pattern

end GuardedStore.Key
