import GuardedStore.Access.Service
import GuardedStore.Proofs.ConfiguredPolicy
import Mathlib.Data.List.Nodup

/-!
# ValidConfigurations — which configurations have a policy

A configuration has a policy exactly if nothing is wrong in it (`Config.exists_policy_iff`), though
the two passes over roles and users leave out what they cannot take in: a role with a fault is not
declared, so its users have one too, and a user with a fault leaves the name free.  Each step says
when it adds no problem, for what was there before (`problems_addRole`, `problems_addUser`), and one
induction turns that into a condition on the entries alone (`problems_foldl`).  The policy then
holds what the entries describe (`Config.Means`), and without one no service is started.
-/

namespace GuardedStore
namespace Config

variable {c : Config} {d : Draft} {p : Policy} {roles : SortedMap String Role}

/-! ## Valid entries -/

/-- A role all of whose grants have patterns. -/
def RoleEntry.IsValid (role : RoleEntry) : Prop :=
  ∀ g ∈ role.grants, ∃ keys, Key.Pattern.create g.keys = .ok keys

/-- A user with a credential that can be used and with declared roles only, each listed once. -/
@[mk_iff isValid_iff]
structure UserEntry.IsValid (Declared : String → Prop) (user : UserEntry) : Prop where
  credential : ∃ credential, user.password.credential = .ok credential
  distinct : user.roles.Nodup
  declared : ∀ name ∈ user.roles, Declared name

theorem UserEntry.IsValid.imp {Declared Declared' : String → Prop} {user : UserEntry}
    (h : user.IsValid Declared) (himp : ∀ q, Declared q → Declared' q) :
    user.IsValid Declared' where
  credential := h.credential
  distinct := h.distinct
  declared := fun q hq => himp q (h.declared q hq)

/-- A configuration with nothing wrong in it. -/
structure IsValid (c : Config) : Prop where
  roles : ∀ role ∈ c.roles, role.IsValid
  roleNames : (c.roles.map RoleEntry.name).Nodup
  users : ∀ user ∈ c.users, user.IsValid (· ∈ c.roles.map RoleEntry.name)
  userNames : (c.users.map UserEntry.name).Nodup

/-! ## Steps without problems -/

theorem problems_readGrants {role : String} {entries : List GrantEntry} :
    (readGrants role entries).2 = [] ↔
      ∀ g ∈ entries, ∃ keys, Key.Pattern.create g.keys = .ok keys := by
  induction entries with
  | nil => simp [readGrants]
  | cons g rest ih =>
      rw [List.forall_mem_cons, ← ih]
      cases hcreate : Key.Pattern.create g.keys with
      | error fault => simp [readGrants_cons_error hcreate]
      | ok keys => simp [readGrants_cons_ok hcreate]

theorem problems_addRole {role : RoleEntry} : (d.addRole role).problems = [] ↔
    d.problems = [] ∧ role.IsValid ∧ d.policy.roles.contains role.name = false := by
  rw [RoleEntry.IsValid, ← @problems_readGrants role.name]
  rcases addRole_cases d role with ⟨hbad, hadd⟩ | ⟨-, htaken, hadd⟩ | ⟨hgrants, hfree, hadd⟩
  · simp [hadd, hbad]
  · simp [hadd, htaken]
  · simp [hadd, hgrants, hfree]

/-- Names that are different and free: the first one is free, and the later ones are different from
it as well. -/
theorem nodup_and_forall_cons {P : String → Prop} {name : String} {names : List String} :
    ((name :: names).Nodup ∧ ∀ q ∈ name :: names, P q) ↔
      P name ∧ names.Nodup ∧ ∀ q ∈ names, q ≠ name ∧ P q := by
  rw [List.nodup_cons, List.forall_mem_cons]
  constructor
  · rintro ⟨⟨hnew, hnodup⟩, hname, hnames⟩
    refine ⟨hname, hnodup, ?_⟩
    intro q hq
    refine ⟨?_, hnames q hq⟩
    rintro rfl
    exact hnew hq
  · rintro ⟨hname, hnodup, hnames⟩
    refine ⟨⟨?_, hnodup⟩, hname, ?_⟩
    · intro hmem
      exact (hnames name hmem).1 rfl
    · intro q hq
      exact (hnames q hq).2

/-- Roles are collected without faults if they are new, declared and different. -/
theorem faults_collectRoles {held : SortedMap String Role} {names : List String} :
    (Policy.collectRoles roles held names).2 = [] ↔
      names.Nodup ∧ ∀ name ∈ names, held.contains name = false ∧ roles.contains name = true := by
  induction names generalizing held with
  | nil => simp [Policy.collectRoles]
  | cons name rest ih =>
      rw [nodup_and_forall_cons]
      cases hheld : held.contains name with
      | true => simp [Policy.collectRoles, hheld]
      | false =>
          cases hrole : roles.get? name with
          | none =>
              have hunknown : roles.contains name = false := by
                rw [SortedMap.contains, hrole]
                rfl
              simp [Policy.collectRoles, hheld, hrole, hunknown]
          | some declared =>
              have hknown : roles.contains name = true := by
                rw [SortedMap.contains, hrole]
                rfl
              -- the new role is held as well when the later names come
              simp only [Policy.collectRoles, hheld, hrole, hknown, ih, SortedMap.contains_insert,
                Bool.or_eq_false_iff, decide_eq_false_iff_not, Bool.false_eq_true, if_false, ne_eq,
                and_self, true_and, and_assoc]

theorem problems_addUser {user : UserEntry} : (d.addUser user).problems = [] ↔
    d.problems = [] ∧ user.IsValid (fun q => d.policy.roles.contains q = true) ∧
      d.policy.users.contains user.name = false := by
  have hfaults : (Policy.collectRoles d.policy.roles .empty user.roles).2 = [] ↔
      user.roles.Nodup ∧ ∀ name ∈ user.roles, d.policy.roles.contains name = true := by
    have hfree : ∀ name, (SortedMap.empty : SortedMap String Role).contains name = false :=
      fun _ => rfl
    simp only [faults_collectRoles, hfree, true_and]
  rw [UserEntry.isValid_iff, ← hfaults]
  rcases addUser_cases d user with
    ⟨fault, hcredential, hadd⟩ | ⟨credential, hcredential, ⟨hbad, hadd⟩ | ⟨hgood, hadd⟩⟩
  · simp [hadd, hcredential]
  · rw [ne_eq, userFaults_eq_nil_iff] at hbad
    simp [hadd, hcredential, userFaults_eq_nil_iff, hbad]
  · simp [hadd, hcredential, userFaults_eq_nil_iff.1 hgood]

/-! ## Passes without problems -/

section Foldl

variable {ε α β : Type} {nameOf : ε → String} {held : Draft → SortedMap String α}
  {other : Draft → β} {Belongs : β → ε → α → Prop} {add : Draft → ε → Draft}
  (Valid : β → ε → Prop)
  (hadd : ∀ d e, (add d e).problems = [] → Added nameOf held other Belongs e d (add d e))
  (hvalid : ∀ d e, (add d e).problems = [] ↔
    d.problems = [] ∧ Valid (other d) e ∧ (held d).contains (nameOf e) = false)

include hadd hvalid

/-- Entries are added without problems if they are valid and their names are new and different.
Whether one is valid depends on a part of the draft that the others leave as it is. -/
theorem problems_foldl {entries : List ε} : (entries.foldl add d).problems = [] ↔
    d.problems = [] ∧ (∀ e ∈ entries, Valid (other d) e) ∧ (entries.map nameOf).Nodup ∧
      ∀ e ∈ entries, (held d).contains (nameOf e) = false := by
  induction entries generalizing d with
  | nil => simp
  | cons e rest ih =>
      have hnames : ((e :: rest).map nameOf).Nodup ∧
          (∀ e' ∈ e :: rest, (held d).contains (nameOf e') = false) ↔
            (held d).contains (nameOf e) = false ∧ (rest.map nameOf).Nodup ∧
              ∀ q ∈ rest.map nameOf, q ≠ nameOf e ∧ (held d).contains q = false := by
        rw [← List.forall_mem_map (P := fun q => (held d).contains q = false)]
        exact nodup_and_forall_cons
      rw [List.foldl_cons, ih, List.forall_mem_cons, hnames]
      -- as soon as the entry has been added its name is taken for the later ones
      have hlater : (add d e).problems = [] → other (add d e) = other d ∧ ∀ q,
          (held (add d e)).contains q = false ↔ q ≠ nameOf e ∧ (held d).contains q = false := by
        intro hproblems
        have hadded := hadd d e hproblems
        rcases hadded.inserted with ⟨a, -, hheld⟩
        refine ⟨hadded.same, ?_⟩
        intro q
        rw [hheld, SortedMap.contains_insert, Bool.or_eq_false_iff, decide_eq_false_iff_not]
      constructor
      · rintro ⟨hproblems, hvalidRest, hnodup, hfree⟩
        rcases (hvalid d e).1 hproblems with ⟨hd, he, hnew⟩
        rcases hlater hproblems with ⟨hother, hcontains⟩
        rw [hother] at hvalidRest
        refine ⟨hd, ⟨he, hvalidRest⟩, hnew, hnodup, List.forall_mem_map.2 ?_⟩
        intro e' he'
        exact (hcontains _).1 (hfree e' he')
      · rintro ⟨hd, ⟨he, hvalidRest⟩, hnew, hnodup, hfree⟩
        have hproblems := (hvalid d e).2 ⟨hd, he, hnew⟩
        rcases hlater hproblems with ⟨hother, hcontains⟩
        refine ⟨hproblems, by rwa [hother], hnodup, ?_⟩
        intro e' he'
        exact (hcontains _).2 (hfree _ (List.mem_map_of_mem he'))

end Foldl

theorem problems_roleDraft : c.roleDraft.problems = [] ↔
    (∀ role ∈ c.roles, role.IsValid) ∧ (c.roles.map RoleEntry.name).Nodup := by
  have hpass : c.roleDraft.problems = [] ↔ _ :=
    problems_foldl (fun _ => RoleEntry.IsValid) (fun _ _ => addRole_added)
      (fun _ _ => problems_addRole)
  constructor
  · intro h
    rcases hpass.1 h with ⟨-, hvalid, hnodup, -⟩
    exact ⟨hvalid, hnodup⟩
  · rintro ⟨hvalid, hnodup⟩
    exact hpass.2 ⟨rfl, hvalid, hnodup, fun _ _ => rfl⟩

/-- If all roles could be taken in, the names of their entries are the declared ones. -/
theorem declared_roleDraft (h : c.roleDraft.problems = []) :
    (∀ q, c.roleDraft.policy.roles.contains q = true ↔ q ∈ c.roles.map RoleEntry.name) ∧
      c.roleDraft.policy.users = .empty := by
  rcases registers_roleDraft h with ⟨hdeclared, hnone⟩
  exact ⟨hdeclared.contains_iff, hnone⟩

theorem problems_draft : c.draft.problems = [] ↔ c.IsValid := by
  have hpass : c.draft.problems = [] ↔ _ :=
    problems_foldl (fun roles => UserEntry.IsValid (fun q => roles.contains q = true))
      (fun _ _ => addUser_added) (fun _ _ => problems_addUser) (d := c.roleDraft)
  constructor
  · intro h
    rcases hpass.1 h with ⟨hroles, husers, huserNames, -⟩
    rcases problems_roleDraft.1 hroles with ⟨hvalid, hroleNames⟩
    rcases declared_roleDraft hroles with ⟨hdeclared, -⟩
    refine ⟨hvalid, hroleNames, ?_, huserNames⟩
    intro user huser
    exact (husers user huser).imp (fun q => (hdeclared q).1)
  · intro h
    have hroles := problems_roleDraft.2 ⟨h.roles, h.roleNames⟩
    rcases declared_roleDraft hroles with ⟨hdeclared, hnone⟩
    refine hpass.2 ⟨hroles, ?_, h.userNames, ?_⟩
    · intro user huser
      exact (h.users user huser).imp (fun q => (hdeclared q).2)
    · intro user _
      rw [hnone]
      rfl

/-! ## Policies -/

theorem exists_policy_iff : (∃ p, c.policy = .ok p) ↔ c.IsValid := by
  rw [← problems_draft]
  simp only [policy_ok_iff, exists_and_left, exists_eq', and_true]

/-- A user as an entry of the configuration describes it. -/
structure UserEntry.Yields (c : Config) (entry : UserEntry) (u : User) : Prop where
  name : u.name = entry.name
  credential : entry.password.credential = .ok u.credential
  allows : ∀ action key, u.allows action key = true ↔
    ∃ role ∈ c.roles, role.name ∈ entry.roles ∧ role.Grants action key

/-- What a configuration says about a policy: it has a role for each role entry and a user for each
user entry, as they are described there, and no others. -/
structure Means (c : Config) (p : Policy) : Prop where
  roles : Registers RoleEntry.name RoleEntry.Declares c.roles p.roles
  users : Registers UserEntry.name (UserEntry.Yields c) c.users p.users

theorem means_of_policy (h : c.policy = .ok p) : c.Means p := by
  have hdescribes := describes_of_policy h
  refine ⟨hdescribes.roles, hdescribes.users.mono ?_⟩
  intro entry u henrols
  exact ⟨henrols.name, henrols.credential, fun _ _ => henrols.allows_iff hdescribes.roles⟩

/-- A configuration has a policy exactly if nothing is wrong in it, and the policy is what it says.
Otherwise no service is started, and the disk is not touched. -/
theorem policy_spec (c : Config) :
    ((∃ p, c.policy = .ok p) ↔ c.IsValid) ∧ (∀ p, c.policy = .ok p → c.Means p) ∧
      ∀ e, c.policy = .error e → ∀ d, Service.start d c = (d, .error e) := by
  refine ⟨exists_policy_iff, fun p => means_of_policy, ?_⟩
  intro e he d
  simp only [Service.start, he]

/-- A configuration with one user is valid; without the role of the user it is not. -/
theorem policy_spec_single :
    let entry := CredentialEntry.ofCredential (.hashed .standard "p" [])
    (single entry).IsValid ∧ (∃ p, (single entry).policy = .ok p ∧ (single entry).Means p) ∧
      ∃ e, ∀ d, Service.start d { single entry with roles := [] } = (d, .error e) := by
  intro entry
  have hpolicy := policy_single (CredentialEntry.credential_ofCredential (.hashed .standard "p" []))
  rcases policy_spec (single entry) with ⟨hvalid, hmeans, -⟩
  refine ⟨hvalid.1 ⟨_, hpolicy⟩, ⟨_, hpolicy, hmeans _ hpolicy⟩, ?_⟩
  rcases policy_spec { single entry with roles := [] } with ⟨hundeclared, -, hstart⟩
  cases hmade : ({ single entry with roles := [] } : Config).policy with
  | error e => exact ⟨e, hstart e hmade⟩
  | ok p =>
      have hbroken := hundeclared.1 ⟨p, hmade⟩
      have hlisted := (hbroken.users ⟨"u", entry, ["w"]⟩ (.head _)).declared "w" (.head _)
      cases hlisted

end Config
end GuardedStore
