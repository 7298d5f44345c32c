import GuardedStore.Config.Policy
import GuardedStore.Proofs.Credentials
import GuardedStore.Proofs.SortedMaps
import Mathlib.Tactic.SplitIfs

/-!
# ConfiguredPolicy — what the policy of a configuration allows

A policy is made of a configuration by one insertion for each role and one for each user, under
names that are not taken, unless an entry is left out (`addRole_cases`, `addUser_cases`).  Without
problems nothing is left out, so the names lead to exactly what the entries describe (`Registers`),
and a user of the policy is allowed what the configuration grants (`Config.allows_iff`).
-/

namespace GuardedStore

/-! ## Registers -/

/-- A map holds under the name of each entry of a list what belongs to the entry, and nothing
else. -/
structure Registers {ε α : Type} (name : ε → String) (Belongs : ε → α → Prop) (entries : List ε)
    (m : SortedMap String α) : Prop where
  entry : ∀ q a, m.get? q = some a → ∃ e ∈ entries, name e = q ∧ Belongs e a
  value : ∀ e ∈ entries, ∃ a, m.get? (name e) = some a ∧ Belongs e a

namespace Registers

variable {ε α : Type} {name : ε → String} {Belongs : ε → α → Prop} {entries : List ε}
  {m : SortedMap String α} {e : ε} {a : α}

theorem nil : Registers name Belongs [] .empty := by
  refine ⟨?_, ?_⟩
  · intro q a h
    cases h
  · intro e he
    cases he

/-- One more entry, under a name that is not taken. -/
theorem insert (h : Registers name Belongs entries m) (hfree : m.contains (name e) = false)
    (hbelongs : Belongs e a) : Registers name Belongs (entries ++ [e]) (m.insert (name e) a) := by
  have hnone : m.get? (name e) = none := by simpa [SortedMap.contains] using hfree
  refine ⟨?_, ?_⟩
  · intro q b hb
    rw [SortedMap.get?_insert] at hb
    split at hb
    · rename_i hq
      cases hb
      exact ⟨e, by simp, hq.symm, hbelongs⟩
    · rcases h.entry q b hb with ⟨e', he', hname, hbelongs'⟩
      exact ⟨e', by simp [he'], hname, hbelongs'⟩
  · intro e' he'
    rcases List.mem_append.1 he' with he' | he'
    · rcases h.value e' he' with ⟨b, hb, hbelongs'⟩
      -- the earlier entry has another name
      have hne : name e' ≠ name e := by
        intro hname
        rw [hname, hnone] at hb
        cases hb
      exact ⟨b, by rw [SortedMap.get?_insert, if_neg hne, hb], hbelongs'⟩
    · rw [List.mem_singleton.1 he']
      exact ⟨a, by rw [SortedMap.get?_insert, if_pos rfl], hbelongs⟩

theorem contains_iff (h : Registers name Belongs entries m) (q : String) :
    m.contains q = true ↔ q ∈ entries.map name := by
  rw [SortedMap.contains, Option.isSome_iff_exists, List.mem_map]
  constructor
  · rintro ⟨a, ha⟩
    rcases h.entry q a ha with ⟨e, he, hname, -⟩
    exact ⟨e, he, hname⟩
  · rintro ⟨e, he, rfl⟩
    rcases h.value e he with ⟨a, ha, -⟩
    exact ⟨a, ha⟩

theorem mono {Belongs' : ε → α → Prop} (h : Registers name Belongs entries m)
    (himp : ∀ e a, Belongs e a → Belongs' e a) : Registers name Belongs' entries m := by
  refine ⟨?_, ?_⟩
  · intro q a ha
    rcases h.entry q a ha with ⟨e, he, hname, hbelongs⟩
    exact ⟨e, he, hname, himp e a hbelongs⟩
  · intro e he
    rcases h.value e he with ⟨a, ha, hbelongs⟩
    exact ⟨a, ha, himp e a hbelongs⟩

end Registers

theorem User.allows_iff {u : User} {action : Action} {key : Key} :
    u.allows action key = true ↔ ∃ q role, u.roles.get? q = some role ∧
      role.allows action key = true := by
  simp only [User.allows, SortedMap.values, List.any_map, List.any_eq_true, Function.comp_apply,
    SortedMap.get?_eq_some_iff]
  constructor
  · rintro ⟨⟨q, role⟩, hmem, hallows⟩
    exact ⟨q, role, hmem, hallows⟩
  · rintro ⟨q, role, hmem, hallows⟩
    exact ⟨(q, role), hmem, hallows⟩

theorem Policy.authenticate_ok {p : Policy} {name password : String} {u : User}
    (h : p.authenticate name password = .ok u) :
    p.user? name = some u ∧ u.credential.accepts password = true := by
  unfold authenticate at h
  split at h
  · cases h
  · rename_i user huser
    split at h
    · rename_i haccepts
      cases h
      exact ⟨huser, haccepts⟩
    · cases h

namespace Config

variable {c : Config} {d : Draft} {p : Policy} {u : User} {name : String} {action : Action}
  {key : Key} {roles : SortedMap String Role} {grants : List Grant}

/-! ## Drafts -/

/-- An entry has been added to a draft: one part of the draft holds what belongs to the entry under
its name, which was not taken, and another part, on which that may depend, is what it was. -/
structure Added {ε α β : Type} (name : ε → String) (held : Draft → SortedMap String α)
    (other : Draft → β) (Belongs : β → ε → α → Prop) (e : ε) (d d' : Draft) : Prop where
  problems : d.problems = []
  free : (held d).contains (name e) = false
  same : other d' = other d
  inserted : ∃ a, Belongs (other d) e a ∧ held d' = (held d).insert (name e) a

section Foldl

variable {ε α β : Type} {name : ε → String} {held : Draft → SortedMap String α}
  {other : Draft → β} {Belongs : β → ε → α → Prop} {add : Draft → ε → Draft}
  (hadd : ∀ d e, (add d e).problems = [] → Added name held other Belongs e d (add d e))

include hadd

theorem problems_of_foldl {entries : List ε} (h : (entries.foldl add d).problems = []) :
    d.problems = [] := by
  induction entries generalizing d with
  | nil => exact h
  | cons e rest ih => exact (hadd d e (ih h)).problems

/-- After entries have been added without problems, they are registered with the earlier ones. -/
theorem registers_foldl {done rest : List ε}
    (hdone : Registers name (Belongs (other d)) done (held d))
    (h : (rest.foldl add d).problems = []) :
    Registers name (Belongs (other d)) (done ++ rest) (held (rest.foldl add d)) ∧
      other (rest.foldl add d) = other d := by
  induction rest generalizing d done with
  | nil => exact ⟨by rwa [List.append_nil], rfl⟩
  | cons e rest ih =>
      have hadded := hadd d e (problems_of_foldl hadd h)
      rcases hadded.inserted with ⟨a, hbelongs, hheld⟩
      have hnext := hdone.insert hadded.free hbelongs
      rw [← hheld, ← hadded.same] at hnext
      rcases ih hnext h with ⟨hregisters, hother⟩
      rw [List.append_assoc, hadded.same] at hregisters
      exact ⟨hregisters, hother.trans hadded.same⟩

end Foldl

/-! ## Roles -/

/-- A role is granted an action on a key in the configuration. -/
def RoleEntry.Grants (role : RoleEntry) (action : Action) (key : Key) : Prop :=
  ∃ g ∈ role.grants, g.action = action ∧
    ∃ keys, Key.Pattern.create g.keys = .ok keys ∧ keys.covers key = true

/-- A role that is declared for an entry. -/
structure RoleEntry.Declares (entry : RoleEntry) (role : Role) : Prop where
  name : role.name = entry.name
  allows : ∀ action key, role.allows action key = true ↔ entry.Grants action key

theorem readGrants_cons_ok {role : String} {g : GrantEntry} {rest : List GrantEntry}
    {keys : Key.Pattern} (h : Key.Pattern.create g.keys = .ok keys) :
    readGrants role (g :: rest) =
      (⟨g.action, keys⟩ :: (readGrants role rest).1, (readGrants role rest).2) := by
  simp only [readGrants, h]

theorem readGrants_cons_error {role : String} {g : GrantEntry} {rest : List GrantEntry}
    {fault : Key.Fault} (h : Key.Pattern.create g.keys = .error fault) :
    readGrants role (g :: rest) =
      ((readGrants role rest).1, .badGrant role g.keys fault :: (readGrants role rest).2) := by
  simp only [readGrants, h]

/-- Grants without problems allow what their entries say. -/
theorem any_readGrants {role : String} {entries : List GrantEntry}
    (h : (readGrants role entries).2 = []) :
    (readGrants role entries).1.any (fun g => g.allows action key) = true ↔
      ∃ g ∈ entries, g.action = action ∧
        ∃ keys, Key.Pattern.create g.keys = .ok keys ∧ keys.covers key = true := by
  induction entries with
  | nil => simp [readGrants]
  | cons g rest ih =>
      cases hcreate : Key.Pattern.create g.keys with
      | error fault =>
          rw [readGrants_cons_error hcreate] at h
          cases h
      | ok keys =>
          rw [readGrants_cons_ok hcreate] at h ⊢
          rw [List.any_cons, Bool.or_eq_true, ih h, List.exists_mem_cons_iff, hcreate]
          simp [Grant.allows]

/-- A role is left out for its grants that are not valid, left out because its name is taken, or
declared with the grants that were read. -/
theorem addRole_cases (d : Draft) (role : RoleEntry) :
    (readGrants role.name role.grants).2 ≠ [] ∧
        d.addRole role =
          { d with problems := d.problems ++ (readGrants role.name role.grants).2 } ∨
      (readGrants role.name role.grants).2 = [] ∧
        d.policy.roles.contains role.name = true ∧
        d.addRole role = { d with problems := d.problems ++ [.takenRole role.name] } ∨
      (readGrants role.name role.grants).2 = [] ∧
        d.policy.roles.contains role.name = false ∧
        d.addRole role = { d with policy := { d.policy with
          roles := d.policy.roles.insert role.name
            ⟨role.name, (readGrants role.name role.grants).1⟩ } } := by
  unfold Draft.addRole Policy.declare
  cases hproblems : (readGrants role.name role.grants).2 with
  | cons problem problems => simp [hproblems]
  | nil => cases htaken : d.policy.roles.contains role.name <;> simp [hproblems, htaken]

/-- A role that is added without problems is declared, under a name that was not taken. -/
theorem addRole_added {role : RoleEntry} (h : (d.addRole role).problems = []) :
    Added RoleEntry.name (·.policy.roles) (·.policy.users) (fun _ => RoleEntry.Declares) role d
      (d.addRole role) := by
  rcases addRole_cases d role with ⟨hbad, hadd⟩ | ⟨-, -, hadd⟩ | ⟨hgrants, hfree, hadd⟩
  · rw [hadd] at h
    exact absurd (List.append_eq_nil_iff.1 h).2 hbad
  · rw [hadd] at h
    exact absurd h (by simp)
  · rw [hadd] at h ⊢
    refine ⟨h, hfree, rfl, ⟨role.name, (readGrants role.name role.grants).1⟩, ⟨rfl, ?_⟩, rfl⟩
    intro action key
    exact any_readGrants hgrants

/-! ## Users -/

/-- What is held after roles have been collected: the declared ones with the given names as well. -/
theorem get?_collectRoles {held : SortedMap String Role} {names : List String}
    (h : (Policy.collectRoles roles held names).2 = []) (q : String) (role : Role) :
    (Policy.collectRoles roles held names).1.get? q = some role ↔
      held.get? q = some role ∨ q ∈ names ∧ roles.get? q = some role := by
  induction names generalizing held with
  | nil => simp [Policy.collectRoles]
  | cons name rest ih =>
      cases hheld : held.contains name with
      | true => simp [Policy.collectRoles, hheld] at h
      | false =>
          have hnew : held.get? name = none := by simpa [SortedMap.contains] using hheld
          cases hrole : roles.get? name with
          | none => simp [Policy.collectRoles, hheld, hrole] at h
          | some declared =>
              simp only [Policy.collectRoles, hheld, hrole, Bool.false_eq_true, if_false] at h ⊢
              rw [ih h, SortedMap.get?_insert, List.mem_cons]
              by_cases hq : q = name
              · subst hq
                simp [hnew, hrole]
              · simp [hq]

/-- A user that is enrolled for an entry. -/
structure UserEntry.Enrols (roles : SortedMap String Role) (entry : UserEntry) (u : User) :
    Prop where
  name : u.name = entry.name
  credential : entry.password.credential = .ok u.credential
  roles : ∀ q role, u.roles.get? q = some role ↔ q ∈ entry.roles ∧ roles.get? q = some role

/-- What is wrong with the roles and the name of a user: the roles that cannot be collected, and
the name if it is taken. -/
def Draft.userFaults (d : Draft) (user : UserEntry) : List MembershipFault :=
  (Policy.collectRoles d.policy.roles .empty user.roles).2 ++
    if d.policy.users.contains user.name then [.takenName user.name] else []

theorem userFaults_eq_nil_iff {user : UserEntry} : d.userFaults user = [] ↔
    (Policy.collectRoles d.policy.roles .empty user.roles).2 = [] ∧
      d.policy.users.contains user.name = false := by
  rw [Draft.userFaults, List.append_eq_nil_iff]
  cases d.policy.users.contains user.name <;> simp

/-- A user is left out for the credential, left out for faults, or enrolled with the roles that
were collected. -/
theorem addUser_cases (d : Draft) (user : UserEntry) :
    (∃ fault, user.password.credential = .error fault ∧
        d.addUser user = { d with problems := d.problems ++ [.badCredential user.name fault] }) ∨
      ∃ credential, user.password.credential = .ok credential ∧
        (d.userFaults user ≠ [] ∧
            d.addUser user =
              { d with problems := d.problems ++ (d.userFaults user).map (.badMember user.name) } ∨
          d.userFaults user = [] ∧
            d.addUser user = { d with policy := { d.policy with
              users := d.policy.users.insert user.name ⟨user.name, credential,
                (Policy.collectRoles d.policy.roles .empty user.roles).1⟩ } }) := by
  unfold Draft.addUser
  cases hcredential : user.password.credential with
  | error fault => exact .inl ⟨fault, rfl, rfl⟩
  | ok credential =>
      refine .inr ⟨credential, rfl, ?_⟩
      have henrol : d.policy.enrol user.name credential user.roles =
          if (d.userFaults user).isEmpty then .ok { d.policy with
            users := d.policy.users.insert user.name ⟨user.name, credential,
              (Policy.collectRoles d.policy.roles .empty user.roles).1⟩ }
          else .error (d.userFaults user) := rfl
      simp only [henrol]
      cases hfaults : d.userFaults user with
      | cons fault faults => exact .inl ⟨List.cons_ne_nil _ _, rfl⟩
      | nil => exact .inr ⟨rfl, rfl⟩

/-- A user that is added without problems is enrolled, under a name that was not taken. -/
theorem addUser_added {user : UserEntry} (h : (d.addUser user).problems = []) :
    Added UserEntry.name (·.policy.users) (·.policy.roles) UserEntry.Enrols user d
      (d.addUser user) := by
  rcases addUser_cases d user with
    ⟨fault, -, hadd⟩ | ⟨credential, hcredential, ⟨hfaults, hadd⟩ | ⟨hfaults, hadd⟩⟩
  · rw [hadd] at h
    exact absurd h (by simp)
  · rw [hadd] at h
    exact absurd (List.map_eq_nil_iff.1 (List.append_eq_nil_iff.1 h).2) hfaults
  · rcases userFaults_eq_nil_iff.1 hfaults with ⟨hcollected, hfree⟩
    rw [hadd] at h ⊢
    refine ⟨h, hfree, rfl, _, ⟨rfl, hcredential, ?_⟩, rfl⟩
    intro q role
    rw [get?_collectRoles hcollected]
    simp

/-! ## The policy -/

/-- What a policy that is made of a configuration holds: what its entries describe. -/
structure Describes (c : Config) (p : Policy) : Prop where
  roles : Registers RoleEntry.name RoleEntry.Declares c.roles p.roles
  users : Registers UserEntry.name (UserEntry.Enrols p.roles) c.users p.users

theorem policy_ok_iff : c.policy = .ok p ↔ c.draft.problems = [] ∧ c.draft.policy = p := by
  unfold Config.policy
  cases hproblems : c.draft.problems <;> simp [hproblems]

/-- The draft with all roles taken in, and no users yet. -/
def roleDraft (c : Config) : Draft := c.roles.foldl Draft.addRole ⟨∅, []⟩

theorem registers_roleDraft (h : c.roleDraft.problems = []) :
    Registers RoleEntry.name RoleEntry.Declares c.roles c.roleDraft.policy.roles ∧
      c.roleDraft.policy.users = .empty := by
  rcases registers_foldl (fun _ _ => addRole_added) .nil h with ⟨hdeclared, hnone⟩
  rw [List.nil_append] at hdeclared
  exact ⟨hdeclared, hnone⟩

theorem describes_of_policy (h : c.policy = .ok p) : c.Describes p := by
  rcases policy_ok_iff.1 h with ⟨hclean, rfl⟩
  have hroles : c.roleDraft.problems = [] := problems_of_foldl (fun _ _ => addUser_added) hclean
  rcases registers_roleDraft hroles with ⟨hdeclared, hnone⟩
  have hstart : Registers UserEntry.name (UserEntry.Enrols c.roleDraft.policy.roles) []
      c.roleDraft.policy.users := by
    rw [hnone]
    exact .nil
  -- enrolling users leaves the roles as they are
  rcases registers_foldl (fun _ _ => addUser_added) hstart hclean with ⟨henrolled, hsame⟩
  rw [List.nil_append] at henrolled
  rw [← hsame] at hdeclared henrolled
  exact ⟨hdeclared, henrolled⟩

/-- A user that is enrolled in declared roles is allowed what the entries of its roles grant. -/
theorem UserEntry.Enrols.allows_iff {entries : List RoleEntry} {user : UserEntry}
    (h : user.Enrols roles u) (hroles : Registers RoleEntry.name RoleEntry.Declares entries roles) :
    u.allows action key = true ↔
      ∃ role ∈ entries, role.name ∈ user.roles ∧ role.Grants action key := by
  rw [User.allows_iff]
  constructor
  · rintro ⟨q, role, hrole, hallows⟩
    rcases (h.roles q role).1 hrole with ⟨hlisted, hdeclared⟩
    rcases hroles.entry q role hdeclared with ⟨entry, hentry, rfl, hdeclares⟩
    exact ⟨entry, hentry, hlisted, (hdeclares.allows _ _).1 hallows⟩
  · rintro ⟨entry, hentry, hlisted, hgrants⟩
    rcases hroles.value entry hentry with ⟨role, hrole, hdeclares⟩
    exact ⟨entry.name, role, (h.roles _ _).2 ⟨hlisted, hrole⟩, (hdeclares.allows _ _).2 hgrants⟩

/-- Some role that the configuration lists for a user is granted an action on a key. -/
def Grants (c : Config) (name : String) (action : Action) (key : Key) : Prop :=
  ∃ user ∈ c.users, user.name = name ∧
    ∃ role ∈ c.roles, role.name ∈ user.roles ∧ role.Grants action key

/-- A user of the policy is allowed what the configuration grants. -/
theorem allows_iff (h : c.policy = .ok p) (hu : p.user? name = some u) :
    u.allows action key = true ↔ c.Grants name action key := by
  have hdescribes := describes_of_policy h
  constructor
  · intro hallows
    rcases hdescribes.users.entry name u hu with ⟨user, huser, hname, henrols⟩
    exact ⟨user, huser, hname, (henrols.allows_iff hdescribes.roles).1 hallows⟩
  · rintro ⟨user, huser, rfl, hgranted⟩
    rcases hdescribes.users.value user huser with ⟨u', hu', henrols⟩
    obtain rfl : u = u' := Option.some.inj (hu.symm.trans hu')
    exact (henrols.allows_iff hdescribes.roles).2 hgranted

/-- A password passes the credential that the configuration has for a user. -/
def Knows (c : Config) (name password : String) : Prop :=
  ∃ user ∈ c.users, user.name = name ∧
    ∃ credential, user.password.credential = .ok credential ∧ credential.accepts password = true

/-- Who is authenticated is known to the configuration. -/
theorem knows_of_authenticate {password : String} (h : c.policy = .ok p)
    (hauth : p.authenticate name password = .ok u) : c.Knows name password := by
  rcases Policy.authenticate_ok hauth with ⟨hu, haccepts⟩
  rcases (describes_of_policy h).users.entry name u hu with ⟨user, huser, hname, henrols⟩
  exact ⟨user, huser, hname, u.credential, henrols.credential, haccepts⟩

end Config

/-! ## A single user -/

namespace Config

/-- The role of those who may write all keys and read a single one. -/
def writing : Role := ⟨"w", [⟨.write, ⟨"/", true⟩⟩, ⟨.read, ⟨"/a", false⟩⟩]⟩

/-- A configuration with one user, who has that role. -/
def single (entry : CredentialEntry) : Config :=
  ⟨none, "store", none, [⟨"w", [⟨.write, "/*"⟩, ⟨.read, "/a"⟩]⟩], [⟨"u", entry, ["w"]⟩], none,
    .standard⟩

def writer (credential : Credential) : User := ⟨"u", credential, .singleton "w" writing⟩

theorem policy_single {entry : CredentialEntry} {credential : Credential}
    (h : entry.credential = .ok credential) :
    (single entry).policy =
      .ok ⟨.singleton "w" writing, .singleton "u" (writer credential)⟩ := by
  have hroles : (single entry).roles.foldl Draft.addRole ⟨∅, []⟩ =
      ⟨⟨.singleton "w" writing, .empty⟩, []⟩ := rfl
  have husers : (single entry).users = [⟨"u", entry, ["w"]⟩] := rfl
  unfold Config.policy draft
  rw [hroles, husers]
  simp only [List.foldl_cons, List.foldl_nil, Draft.addUser, h]
  rfl

end Config
end GuardedStore
