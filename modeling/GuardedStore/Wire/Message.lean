import GuardedStore.Error.Basic
import GuardedStore.Json.Limits
import GuardedStore.Json.Reader
import GuardedStore.Json.Record
import GuardedStore.Json.Writer
import GuardedStore.OrderedEntries
import GuardedStore.SortedMap

/-!
# Wire messages

A message on the wire is a JSON value without a tag; which message it is shows by its fields:

* a request `read`, `update`, `delete`,
* a result `values`,
* errors `errors`, each with `errorCode` and `message`,
* an error `errorCode`, `message`.

`Message.parse` reads one from bytes and `Message.encode` writes one.
-/

namespace GuardedStore.Wire

/-- A request to read, update and delete keys, as it is spelled by whoever sends it. -/
structure Request where
  read : SortedSet String
  -- the keys to update and their new values, in the order in which they are listed
  update : OrderedEntries
  delete : SortedSet String
  deriving Repr

/-- The values of the keys that were to be read. -/
structure Result where
  values : SortedMap String String
  deriving Repr

structure ErrorReport where
  code : String
  message : String
  deriving Repr, DecidableEq

structure ErrorReports where
  errors : List ErrorReport
  deriving Repr, DecidableEq

inductive Message where
  | request (r : Request)
  | result (r : Result)
  | errors (e : ErrorReports)
  | error (e : ErrorReport)
  deriving Repr

def ErrorReport.ofError (e : StoreError) : ErrorReport := ⟨e.code.text, e.message⟩

/-! ## As JSON -/

def textArray (texts : List String) : Json := .array (texts.map Json.ofText)

def textObject (members : List (String × String)) : Json :=
  .ofMembers (members.map (fun m => (m.1, Json.ofText m.2)))

namespace Request

def form : Json.RecordForm := ⟨["read", "update", "delete"], false⟩

def toJson (r : Request) : Json :=
  .ofMembers [("read", textArray (SortedSet.members r.read)),
    ("update", textObject r.update.toList), ("delete", textArray (SortedSet.members r.delete))]

def ofJson? (v : Json) : Option Request :=
  match form.read? v with
  | some [read, update, delete] => do
    let read ← Json.required Json.texts? read
    let update ← Json.required Json.textMembers? update
    let delete ← Json.required Json.texts? delete
    return ⟨SortedSet.ofMembers read, OrderedEntries.ofList update, SortedSet.ofMembers delete⟩
  | _ => none

end Request

namespace Result

def form : Json.RecordForm := ⟨["values"], false⟩

def toJson (r : Result) : Json := .ofMembers [("values", textObject r.values.toList)]

def ofJson? (v : Json) : Option Result :=
  match form.read? v with
  | some [values] => do
    let values ← Json.required Json.textMembers? values
    return ⟨SortedMap.ofList values⟩
  | _ => none

end Result

namespace ErrorReport

def form : Json.RecordForm := ⟨["errorCode", "message"], false⟩

def toJson (e : ErrorReport) : Json :=
  .ofMembers [("errorCode", Json.ofText e.code), ("message", Json.ofText e.message)]

def ofJson? (v : Json) : Option ErrorReport :=
  match form.read? v with
  | some [code, message] => do
    let code ← Json.required Json.text? code
    let message ← Json.required Json.text? message
    return ⟨code, message⟩
  | _ => none

end ErrorReport

namespace ErrorReports

def form : Json.RecordForm := ⟨["errors"], false⟩

def toJson (e : ErrorReports) : Json :=
  .ofMembers [("errors", .array (e.errors.map ErrorReport.toJson))]

def ofJson? (v : Json) : Option ErrorReports :=
  match form.read? v with
  | some [errors] => do
    let errors ← Json.required (Json.items? ErrorReport.ofJson?) errors
    return ⟨errors⟩
  | _ => none

end ErrorReports

namespace Message

def kind : Message → String
  | request _ => "RUD"
  | result _ => "Result"
  | errors _ => "Errors"
  | error _ => "Error"

def toJson : Message → Json
  | request r => r.toJson
  | result r => r.toJson
  | errors e => e.toJson
  | error e => e.toJson

/-- The message that a value writes: the first of the shapes that fits. -/
def ofJson? (v : Json) : Option Message :=
  ((Request.ofJson? v).map request) <|> ((Result.ofJson? v).map result) <|>
    ((ErrorReports.ofJson? v).map errors) <|> ((ErrorReport.ofJson? v).map error)

def encode (m : Message) : List UInt8 := Json.write m.toJson

/-- The message that bytes write.  A value that is none has `noShape`, whatever follows it; a value
that is one must not be followed by more than blanks. -/
def parse (bytes : List UInt8) : Except StoreError Message :=
  match Json.readValue bytes with
  | none => .error (.badMessage .notJson)
  | some (v, rest) =>
    if !v.isHoldable then .error (.badMessage .notJson)
    else match ofJson? v with
      | none => .error (.badMessage .noShape)
      | some m => if Json.isFinished rest then .ok m else .error (.badMessage .notJson)

end Message

end GuardedStore.Wire
