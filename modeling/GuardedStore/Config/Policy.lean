import GuardedStore.Config.Basic
import GuardedStore.Security.Policy

/-!
# The policy of a configuration

Roles are declared and users are enrolled in the order in which they are listed.  All problems on
the way are collected, and there is a policy only if there are none.
-/

namespace GuardedStore.Config

/-- A policy on the way, and the problems so far. -/
structure Draft where
  policy : Policy
  problems : List ConfigProblem

/-- The grants of a role, and the problems of those that have no valid pattern. -/
def readGrants (role : String) : List GrantEntry → List Grant × List ConfigProblem
  | [] => ([], [])
  | g :: rest =>
    let (grants, problems) := readGrants role rest
    match Key.Pattern.create g.keys with
    | .ok keys => (⟨g.action, keys⟩ :: grants, problems)
    | .error fault => (grants, .badGrant role g.keys fault :: problems)

/-- Declares a role, if all of its grants are valid. -/
def Draft.addRole (d : Draft) (role : RoleEntry) : Draft :=
  let (grants, problems) := readGrants role.name role.grants
  if problems.isEmpty then
    match d.policy.declare ⟨role.name, grants⟩ with
    | .ok policy => { d with policy }
    | .error _ => { d with problems := d.problems ++ [.takenRole role.name] }
  else { d with problems := d.problems ++ problems }

/-- Enrols a user, if the credential is valid. -/
def Draft.addUser (d : Draft) (user : UserEntry) : Draft :=
  match user.password.credential with
  | .error fault => { d with problems := d.problems ++ [.badCredential user.name fault] }
  | .ok credential => match d.policy.enrol user.name credential user.roles with
    | .ok policy => { d with policy }
    | .error faults => { d with problems := d.problems ++ faults.map (.badMember user.name) }

/-- All roles and users taken in. -/
def draft (c : Config) : Draft :=
  c.users.foldl Draft.addUser (c.roles.foldl Draft.addRole ⟨∅, []⟩)

def policy (c : Config) : Except StoreError Policy :=
  let d := c.draft
  if d.problems.isEmpty then .ok d.policy else .error (.configValidation d.problems)

end GuardedStore.Config
