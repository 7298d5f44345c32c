import GuardedStore.Json.Basic

/-!
# Records in JSON

A record with declared fields is an object with a member for each field, in any order, or an array
of the fields in their declared order.  A field may be named once only.  Members with other names
are refused by a closed record and skipped by an open one, whatever their values are; at the end of
an array fields may be left out, and it may have no more items than there are fields.

Reading a record gives for each declared field the value found, and leaves it to the field whether
it may be missing.
-/

namespace GuardedStore.Json

structure RecordForm where
  -- the names of the fields, in their declared order
  fields : List String
  -- whether members with other names may occur
  isOpen : Bool

def namedMembers? : List (List UInt8 × Json) → Option (List (String × Json))
  | [] => some []
  | (name, v) :: rest => match bytesText? name, namedMembers? rest with
    | some name, some rest => some ((name, v) :: rest)
    | _, _ => none

def member? (name : String) (members : List (String × Json)) : Option Json :=
  (members.find? (fun m => m.1 == name)).map (·.2)

def occurrences (name : String) (members : List (String × Json)) : Nat :=
  members.countP (fun m => m.1 == name)

def RecordForm.admits (form : RecordForm) (members : List (String × Json)) : Bool :=
  (form.isOpen || members.all (fun m => form.fields.contains m.1)) &&
    form.fields.all (fun f => occurrences f members ≤ 1)

def RecordForm.read? (form : RecordForm) : Json → Option (List (Option Json))
  | .array items =>
    if items.length ≤ form.fields.length then
      some (items.map some ++ List.replicate (form.fields.length - items.length) none)
    else none
  | .object members => match namedMembers? members with
    | none => none
    | some members =>
      if form.admits members then some (form.fields.map (fun f => member? f members)) else none
  | _ => none

def required {α : Type} (read : Json → Option α) : Option Json → Option α
  | none => none
  | some v => read v

def withDefault {α : Type} (default : α) (read : Json → Option α) : Option Json → Option α
  | none => some default
  | some v => read v

def optional {α : Type} (read : Json → Option α) : Option Json → Option (Option α)
  | none => some none
  | some .null => some none
  | some v => (read v).map some

/-- Applies a reading to all elements of a list, and fails if it fails for one. -/
def readEach {α β : Type} (read : α → Option β) : List α → Option (List β)
  | [] => some []
  | a :: rest => match read a, readEach read rest with
    | some b, some rest => some (b :: rest)
    | _, _ => none

def items? {α : Type} (read : Json → Option α) : Json → Option (List α)
  | .array items => readEach read items
  | _ => none

def texts? : Json → Option (List String) := items? text?

/-- An object whose members are texts, in the order in which they are written. -/
def textMembers? : Json → Option (List (String × String))
  | .object members => readEach (fun m => match bytesText? m.1, m.2.text? with
    | some name, some text => some (name, text)
    | _, _ => none) members
  | _ => none

def bool? : Json → Option Bool
  | .bool b => some b
  | _ => none

end GuardedStore.Json
