import GuardedStore.Json.Record
import GuardedStore.Security.Role

/-!
# Roles and users in a configuration

The entries of a configuration as they are written.  Patterns, credentials and the names of roles
are texts here, which may not make sense.
-/

namespace GuardedStore.Config

structure GrantEntry where
  action : Action
  keys : String
  deriving Repr, DecidableEq

structure RoleEntry where
  name : String
  grants : List GrantEntry
  deriving Repr, DecidableEq

structure CredentialEntry where
  algorithm : String
  -- the salt, in hexadecimal
  salt : String
  -- the hash, in hexadecimal
  hash : String
  deriving Repr, DecidableEq

structure UserEntry where
  name : String
  password : CredentialEntry
  -- the names of the roles that the user holds
  roles : List String
  deriving Repr, DecidableEq

end Config

def Action.toJson (a : Action) : Json := Json.ofText a.text

/-- The action that a value writes: a text, or an object that names it with `null`. -/
def Action.ofJson? : Json → Option Action
  | .string bytes => (Json.bytesText? bytes).bind ofText?
  | .object [(name, .null)] => (Json.bytesText? name).bind ofText?
  | _ => none

namespace Config

namespace GrantEntry

def form : Json.RecordForm := ⟨["action", "keys"], false⟩

def toJson (g : GrantEntry) : Json :=
  .ofMembers [("action", g.action.toJson), ("keys", Json.ofText g.keys)]

def ofJson? (v : Json) : Option GrantEntry :=
  match form.read? v with
  | some [action, keys] => do
    let action ← Json.required Action.ofJson? action
    let keys ← Json.required Json.text? keys
    return ⟨action, keys⟩
  | _ => none

end GrantEntry

namespace RoleEntry

/-- The fields of a role; the grants may be left out. -/
def form : Json.RecordForm := ⟨["name", "grants"], false⟩

def toJson (r : RoleEntry) : Json :=
  .ofMembers [("name", Json.ofText r.name), ("grants", .array (r.grants.map GrantEntry.toJson))]

def ofJson? (v : Json) : Option RoleEntry :=
  match form.read? v with
  | some [name, grants] => do
    let name ← Json.required Json.text? name
    let grants ← Json.withDefault [] (Json.items? GrantEntry.ofJson?) grants
    return ⟨name, grants⟩
  | _ => none

end RoleEntry

namespace CredentialEntry

def form : Json.RecordForm := ⟨["algorithm", "salt", "hash"], false⟩

def toJson (c : CredentialEntry) : Json :=
  .ofMembers [("algorithm", Json.ofText c.algorithm), ("salt", Json.ofText c.salt),
    ("hash", Json.ofText c.hash)]

def ofJson? (v : Json) : Option CredentialEntry :=
  match form.read? v with
  | some [algorithm, salt, hash] => do
    let algorithm ← Json.required Json.text? algorithm
    let salt ← Json.required Json.text? salt
    let hash ← Json.required Json.text? hash
    return ⟨algorithm, salt, hash⟩
  | _ => none

def ofCredential (c : Credential) : CredentialEntry := ⟨c.algorithm.identifier, c.salt, c.hash⟩

def credential (c : CredentialEntry) : Except CredentialFault Credential :=
  match Algorithm.parse c.algorithm with
  | .error fault => .error fault
  | .ok algorithm => Credential.create algorithm c.salt c.hash

end CredentialEntry

namespace UserEntry

/-- The fields of a user; the roles may be left out. -/
def form : Json.RecordForm := ⟨["name", "password", "roles"], false⟩

def toJson (u : UserEntry) : Json :=
  .ofMembers [("name", Json.ofText u.name), ("password", u.password.toJson),
    ("roles", .array (u.roles.map Json.ofText))]

def ofJson? (v : Json) : Option UserEntry :=
  match form.read? v with
  | some [name, password, roles] => do
    let name ← Json.required Json.text? name
    let password ← Json.required CredentialEntry.ofJson? password
    let roles ← Json.withDefault [] Json.texts? roles
    return ⟨name, password, roles⟩
  | _ => none

end UserEntry

end Config

/-! ## Keys and grants by themselves -/

def Key.ofJson? (v : Json) : Option Key := v.text?.bind (fun raw => (Key.create raw).toOption)

def Key.toJson (key : Key) : Json := Json.ofText key.text

def Key.Pattern.ofJson? (v : Json) : Option Key.Pattern :=
  v.text?.bind (fun raw => (Pattern.create raw).toOption)

def Key.Pattern.toJson (p : Key.Pattern) : Json := Json.ofText p.display

namespace Grant

def form : Json.RecordForm := ⟨["action", "keys"], true⟩

def toJson (g : Grant) : Json := .ofMembers [("action", g.action.toJson), ("keys", g.keys.toJson)]

def ofJson? (v : Json) : Option Grant :=
  match form.read? v with
  | some [action, keys] => do
    let action ← Json.required Action.ofJson? action
    let keys ← Json.required Key.Pattern.ofJson? keys
    return ⟨action, keys⟩
  | _ => none

end Grant

end GuardedStore
