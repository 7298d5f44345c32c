import GuardedStore.Security.Role

/-!
# Policies

A policy says which roles there are and which users hold them.  It grows by declaring roles and by
enrolling users in declared roles; a step that fails leaves it as it is.
-/

namespace GuardedStore

/-- Who may do what. -/
structure Policy where
  -- the declared roles, under their names
  roles : SortedMap String Role
  -- the users, under their names
  users : SortedMap String User
  deriving Repr

namespace Policy

def empty : Policy := ⟨.empty, .empty⟩

instance : EmptyCollection Policy := ⟨empty⟩

instance : Inhabited Policy := ⟨empty⟩

def declare (p : Policy) (role : Role) : Except ConfigFault Policy :=
  if p.roles.contains role.name then .error (.takenRole role.name)
  else .ok { p with roles := p.roles.insert role.name role }

/-- Collects declared roles by their names; names that are unknown or come again are faults. -/
def collectRoles (declared : SortedMap String Role) (held : SortedMap String Role) :
    List String → SortedMap String Role × List MembershipFault
  | [] => (held, [])
  | name :: rest =>
    if held.contains name then
      let (roles, faults) := collectRoles declared held rest
      (roles, .repeatedRole name :: faults)
    else match declared.get? name with
      | some role => collectRoles declared (held.insert name role) rest
      | none =>
        let (roles, faults) := collectRoles declared held rest
        (roles, .unknownRole name :: faults)

/-- Enrols a user in declared roles, under a name that is not taken. -/
def enrol (p : Policy) (name : String) (credential : Credential) (roleNames : List String) :
    Except (List MembershipFault) Policy :=
  let (roles, faults) := collectRoles p.roles .empty roleNames
  let faults := faults ++ if p.users.contains name then [.takenName name] else []
  if faults.isEmpty then .ok { p with users := p.users.insert name ⟨name, credential, roles⟩ }
  else .error faults

def user? (p : Policy) (name : String) : Option User := p.users.get? name

/-- The user with a name, if the password passes. -/
def authenticate (p : Policy) (name password : String) : Except StoreError User :=
  match p.user? name with
  | none => .error (.authenticationFailed name)
  | some user =>
    if user.credential.accepts password then .ok user else .error (.authenticationFailed name)

end Policy

end GuardedStore
