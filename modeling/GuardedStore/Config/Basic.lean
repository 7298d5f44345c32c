import GuardedStore.Config.Entry
import GuardedStore.Config.FaultInjection
import GuardedStore.Config.Storage
import GuardedStore.Json.Reader
import GuardedStore.Json.Writer
import GuardedStore.Store.Kind

/-!
# Configurations

Where the store is, of which kind it is, how it works and who may use it.  `Config.parse` reads a
configuration and refuses one with a kind that does not exist or a probability out of range; what
is wrong with its roles and users shows when a policy is made of them.
-/

namespace GuardedStore

structure Config where
  -- A name of the form that the configuration has
  schema : Option String
  databaseFile : String
  databaseKind : Option String
  roles : List Config.RoleEntry
  users : List Config.UserEntry
  faultInjection : Option FaultInjection
  storage : StorageSettings
  deriving Repr

namespace Config

def form : Json.RecordForm :=
  ⟨["%schema", "databaseFile", "databaseKind", "roles", "users", "faultInjection", "storage"],
    true⟩

/-- A member that is left out when there is nothing to say. -/
def member {α : Type} (name : String) (toJson : α → Json) : Option α → List (String × Json)
  | none => []
  | some a => [(name, toJson a)]

def toJson (c : Config) : Json :=
  .ofMembers (member "%schema" Json.ofText c.schema ++
    [("databaseFile", Json.ofText c.databaseFile)] ++
    member "databaseKind" Json.ofText c.databaseKind ++
    [("roles", .array (c.roles.map RoleEntry.toJson)),
      ("users", .array (c.users.map UserEntry.toJson))] ++
    member "faultInjection" FaultInjection.toJson c.faultInjection ++
    [("storage", c.storage.toJson)])

def ofJson? (v : Json) : Option Config :=
  match form.read? v with
  | some [schema, databaseFile, databaseKind, roles, users, faultInjection, storage] => do
    let schema ← Json.optional Json.text? schema
    let databaseFile ← Json.required Json.text? databaseFile
    let databaseKind ← Json.optional Json.text? databaseKind
    let roles ← Json.required (Json.items? RoleEntry.ofJson?) roles
    let users ← Json.required (Json.items? UserEntry.ofJson?) users
    let faultInjection ← Json.optional FaultInjection.ofJson? faultInjection
    let storage ← Json.withDefault StorageSettings.standard StorageSettings.ofJson? storage
    return ⟨schema, databaseFile, databaseKind, roles, users, faultInjection, storage⟩
  | _ => none

def kind (c : Config) : Except StoreError StoreKind :=
  match c.databaseKind with
  | none => .ok StoreKind.standard
  | some raw => StoreKind.parse raw

def faults (c : Config) : FaultInjection := c.faultInjection.getD .disabled

def parse (bytes : List UInt8) : Except StoreError Config :=
  match (Json.readAll bytes).bind ofJson? with
  | none => .error (.config .unparseable)
  | some c =>
    if !c.faults.isValid then .error (.config (.badProbability c.faults.probability))
    else match c.kind with
      | .error e => .error e
      | .ok _ => .ok c

def encode (c : Config) : List UInt8 := Json.write c.toJson

end Config

end GuardedStore
