import GuardedStore.Packed.Head

/-!
# Changes

What one transaction does to a store: it puts values under keys and then deletes keys.

A change is packed as an array of its two fields.  It is also read from a map that names the fields,
or numbers them from zero, and may have members with other names, which are skipped.  What follows
a packed change is not looked at.
-/

namespace GuardedStore.Log

structure Change where
  -- the keys that are put and their values
  puts : List (String × String)
  deletes : List String
  deriving Repr, DecidableEq

namespace Change

def none : Change := ⟨[], []⟩

instance : Inhabited Change := ⟨none⟩

def packPut (put : String × String) : ByteArray :=
  Packed.array [Packed.text put.1, Packed.text put.2]

def pack (c : Change) : ByteArray :=
  Packed.array [Packed.array (c.puts.map packPut), Packed.array (c.deletes.map Packed.text)]

def readPut? (bytes : ByteArray) (pos : Nat) : Option ((String × String) × Nat) :=
  match Packed.Head.read? bytes pos with
  | some (.array 2, pos) => do
    let (key, pos) ← Packed.readText? bytes pos
    let (value, pos) ← Packed.readText? bytes pos
    return ((key, value), pos)
  | _ => .none

def readPuts? (bytes : ByteArray) (pos : Nat) : Option (List (String × String) × Nat) :=
  Packed.readArray? (readPut? bytes) bytes pos

def readDeletes? (bytes : ByteArray) (pos : Nat) : Option (List String × Nat) :=
  Packed.readArray? (Packed.readText? bytes) bytes pos

inductive Field where
  | puts
  | deletes
  | other
  deriving Repr, DecidableEq

/-- The field with a name, which need not be a text. -/
def Field.ofName (name : ByteArray) : Field :=
  match String.fromUTF8? name with
  | some "puts" => puts
  | some "deletes" => deletes
  | _ => other

def readField? (bytes : ByteArray) (pos : Nat) : Option (Field × Nat) :=
  match Packed.Head.read? bytes pos with
  | some (.natural n, pos) =>
    some (if n = 0 then .puts else if n = 1 then .deletes else .other, pos)
  | _ => (Packed.readBytes? bytes pos).map (fun (name, pos) => (.ofName name, pos))

/-- Reads the members of a map after some that are read already.  A field comes once. -/
def readMembers? (bytes : ByteArray) (puts : Option (List (String × String)))
    (deletes : Option (List String)) : Nat → Nat → Option Change
  | 0, _ => do
    let puts ← puts
    let deletes ← deletes
    return ⟨puts, deletes⟩
  | count + 1, pos => match readField? bytes pos with
    | .none => .none
    | some (.puts, pos) =>
      if puts.isSome then .none
      else match readPuts? bytes pos with
        | .none => .none
        | some (puts, pos) => readMembers? bytes (some puts) deletes count pos
    | some (.deletes, pos) =>
      if deletes.isSome then .none
      else match readDeletes? bytes pos with
        | .none => .none
        | some (deletes, pos) => readMembers? bytes puts (some deletes) count pos
    | some (.other, pos) => match Packed.skip? bytes (Packed.greatestDepth - 1) pos with
      | .none => .none
      | some pos => readMembers? bytes puts deletes count pos

def unpack? (bytes : ByteArray) : Option Change :=
  match Packed.Head.read? bytes 0 with
  | some (.array 2, pos) => do
    let (puts, pos) ← readPuts? bytes pos
    let (deletes, _) ← readDeletes? bytes pos
    return ⟨puts, deletes⟩
  | some (.map count, pos) => readMembers? bytes .none .none count pos
  | _ => .none

end Change

end GuardedStore.Log
