import GuardedStore.Error.Basic
import GuardedStore.Security.Credential
import GuardedStore.SortedMap

/-!
# Roles and users

A grant allows one action on the keys of a pattern.  A role has a list of grants, a user holds
roles, and what no role of a user grants is denied.
-/

namespace GuardedStore

inductive Action where
  | read
  | write
  deriving Repr, DecidableEq

def Action.text : Action → String
  | .read => "READ"
  | .write => "WRITE"

def Action.ofText? (text : String) : Option Action :=
  if text = Action.read.text then some .read
  else if text = Action.write.text then some .write
  else none

/-- A permission for one action on all keys of a pattern. -/
structure Grant where
  action : Action
  keys : Key.Pattern
  deriving Repr, DecidableEq

def Grant.allows (g : Grant) (action : Action) (key : Key) : Bool :=
  g.action == action && g.keys.covers key

/-- A named list of grants. -/
structure Role where
  name : String
  grants : List Grant
  deriving Repr, DecidableEq

def Role.allows (r : Role) (action : Action) (key : Key) : Bool :=
  r.grants.any (fun g => g.allows action key)

/-- Somebody who may send requests. -/
structure User where
  name : String
  credential : Credential
  -- the roles that the user holds, under their names
  roles : SortedMap String Role
  deriving Repr

def User.allows (u : User) (action : Action) (key : Key) : Bool :=
  u.roles.values.any (fun r => r.allows action key)

/-- The key that a text spells, if the user may do something to it. -/
def User.authorize (u : User) (action : Action) (raw : String) : Except StoreError Key :=
  match Key.create raw with
  | .error fault => .error (.invalidKey raw fault)
  | .ok key =>
    if u.allows action key then .ok key
    else .error (.permissionDenied action.text key.text)

end GuardedStore
