import GuardedStore.Disk
import GuardedStore.Json.Numeral
import GuardedStore.Json.Reader
import GuardedStore.Json.Record
import GuardedStore.Json.Writer

/-!
# Saved databases

How the state of a database is kept in a file between two runs of the program: a line that says what
the file is, and then a JSON record of the state.  An empty file is an empty database, and bytes
that do not start with that line are none.
-/

namespace GuardedStore

namespace Table.Image

def savedLine : String := "leafkv database 1\n"

def form : Json.RecordForm :=
  ⟨["applicationId", "writeAhead", "versions", "rows", "others"], false⟩

def wholeToJson (n : Int) : Json := Json.ofText (Decimal.signedText n)

def whole? (v : Json) : Option Int := v.text?.bind String.toInt?

def versionOf? : Json → Option (Int × Int)
  | .array [id, number] => do
    let id ← whole? id
    let number ← whole? number
    return (id, number)
  | _ => none

def orNull {α : Type} (toJson : α → Json) : Option α → Json
  | none => .null
  | some a => toJson a

def toJson (image : Image) : Json :=
  .ofMembers [("applicationId", wholeToJson image.applicationId.toInt),
    ("writeAhead", .bool image.writeAhead),
    ("versions", orNull (fun rows => .array (rows.map
      (fun r => .array [wholeToJson r.1, wholeToJson r.2]))) image.versions),
    ("rows", orNull (fun rows : SortedMap String String => .ofMembers (rows.toList.map
      (fun e => (e.1, Json.ofText e.2)))) image.rows),
    ("others", .array (image.others.map Json.ofText))]

def ofJson? (v : Json) : Option Image :=
  match form.read? v with
  | some [applicationId, writeAhead, versions, rows, others] => do
    let applicationId ← Json.required whole? applicationId
    let writeAhead ← Json.required Json.bool? writeAhead
    let versions ← Json.optional (Json.items? versionOf?) versions
    let rows ← Json.optional Json.textMembers? rows
    let others ← Json.required Json.texts? others
    return ⟨Int32.ofInt applicationId, writeAhead, versions, rows.map SortedMap.ofList, others⟩
  | _ => none

end Table.Image

namespace Content

def saved : Content → ByteArray
  | .bytes b => b
  | .database image => Table.Image.savedLine.toUTF8 ++ Bytes.ofList (Json.write image.toJson)

def ofSaved (b : ByteArray) : Content :=
  let line := Table.Image.savedLine.toUTF8
  if Bytes.toList (b.extract 0 line.size) = Bytes.toList line then
    match (Json.readAll (Bytes.toList (b.extract line.size b.size))).bind Table.Image.ofJson? with
    | some image => .database image
    | none => .bytes b
  else .bytes b

end Content

end GuardedStore
