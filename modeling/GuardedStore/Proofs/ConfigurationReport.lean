import GuardedStore.Proofs.ValidConfigurations

/-!
# ConfigurationReport — what is said about a configuration that is refused

Both passes go on after a problem, but an entry that has one is left out from there on.  So every
grant without a valid pattern and every credential that cannot be used is reported, in the order of
the entries.  But the roles of a user are looked at only if the credential can be used, and they are
looked up among the roles that were declared: a role with an invalid grant is not one of them, and
counts as unknown although there is an entry for it.

A report has a part for each topic (`about`).  Each step adds to each part what the entry has to do
with its topic (`reports_addRole`, `reports_addUser`), and one induction gathers the parts
(`reports_foldl`).
-/

namespace GuardedStore

/-! ## Topics -/

/-- What a problem is about, unless it is a name that comes again. -/
inductive ConfigProblem.Topic
  | grant
  | credential
  | unknownRole
  deriving DecidableEq

def ConfigProblem.topic? : ConfigProblem → Option Topic
  | .badGrant .. => some .grant
  | .badCredential .. => some .credential
  | .badMember _ (.unknownRole _) => some .unknownRole
  | _ => none

namespace Config

open ConfigProblem (Topic)

variable {c : Config} {d : Draft} {problems more : List ConfigProblem} {topic : Topic}
  {roles held : SortedMap String Role} {q : String}

/-- The problems on a topic, in order. -/
def about (topic : Topic) (problems : List ConfigProblem) : List ConfigProblem :=
  problems.filter (·.topic? = some topic)

@[simp] theorem about_nil : about topic [] = [] := rfl

@[simp] theorem about_append :
    about topic (problems ++ more) = about topic problems ++ about topic more :=
  List.filter_append ..

theorem about_eq_self (h : ∀ p ∈ problems, p.topic? = some topic) :
    about topic problems = problems :=
  List.filter_eq_self.2 (fun p hp => decide_eq_true (h p hp))

theorem about_eq_nil (h : ∀ p ∈ problems, p.topic? ≠ some topic) : about topic problems = [] :=
  List.filter_eq_nil_iff.2 (fun p hp => by simpa using h p hp)

/-! ## Entries -/

/-- The grants of a role that have no valid pattern. -/
def RoleEntry.badGrants (role : RoleEntry) : List ConfigProblem :=
  role.grants.filterMap fun g => match Key.Pattern.create g.keys with
    | .ok _ => none
    | .error fault => some (.badGrant role.name g.keys fault)

/-- The credential of a user, if it cannot be used. -/
def UserEntry.badCredentials (user : UserEntry) : List ConfigProblem :=
  match user.password.credential with
  | .ok _ => []
  | .error fault => [.badCredential user.name fault]

/-- The listed roles of a user that are not declared, if the credential can be used. -/
def UserEntry.unknownRoles (Declared : String → Prop) [DecidablePred Declared] (user : UserEntry) :
    List ConfigProblem :=
  match user.password.credential with
  | .ok _ => (user.roles.filter (¬ Declared ·)).map (.badMember user.name <| .unknownRole ·)
  | .error _ => []

/-- What a role has to do with each topic. -/
def RoleEntry.report (role : RoleEntry) : Topic → List ConfigProblem
  | .grant => role.badGrants
  | .credential => []
  | .unknownRole => []

/-- What a user has to do with each topic. -/
def UserEntry.report (Declared : String → Prop) [DecidablePred Declared] (user : UserEntry) :
    Topic → List ConfigProblem
  | .grant => []
  | .credential => user.badCredentials
  | .unknownRole => user.unknownRoles Declared

theorem problems_readGrants_eq (role : RoleEntry) :
    (readGrants role.name role.grants).2 = role.badGrants := by
  rcases role with ⟨name, entries⟩
  induction entries with
  | nil => rfl
  | cons g rest ih =>
      cases hcreate : Key.Pattern.create g.keys with
      | error fault => simp [readGrants_cons_error hcreate, ih, RoleEntry.badGrants, hcreate]
      | ok keys => simp [readGrants_cons_ok hcreate, ih, RoleEntry.badGrants, hcreate]

theorem badGrants_eq_nil_iff {role : RoleEntry} : role.badGrants = [] ↔ role.IsValid := by
  rw [← problems_readGrants_eq, problems_readGrants, RoleEntry.IsValid]

instance (role : RoleEntry) : Decidable role.IsValid := decidable_of_iff _ badGrants_eq_nil_iff

theorem about_badGrants (role : RoleEntry) : about topic role.badGrants = role.report topic := by
  have htopic : ∀ p ∈ role.badGrants, p.topic? = some .grant := by
    intro p hp
    rcases List.mem_filterMap.1 hp with ⟨g, -, hg⟩
    split at hg
    · cases hg
    · cases hg
      rfl
  have hother : topic ≠ .grant → about topic role.badGrants = [] := by
    intro hne
    refine about_eq_nil ?_
    intro p hp
    simp [htopic p hp, Ne.symm hne]
  cases topic with
  | grant => exact about_eq_self htopic
  | credential => exact hother (by decide)
  | unknownRole => exact hother (by decide)

/-- Among the roles of a user the unknown ones are those that are not declared, however often they
are listed. -/
theorem about_collectRoles {user : String} {names : List String}
    (hheld : ∀ q, held.contains q = true → roles.contains q = true) :
    about .unknownRole ((Policy.collectRoles roles held names).2.map (.badMember user)) =
      (names.filter (¬ roles.contains · = true)).map (.badMember user <| .unknownRole ·) := by
  induction names generalizing held with
  | nil => rfl
  | cons name rest ih =>
      cases htaken : held.contains name with
      | true =>
          have hknown := hheld name htaken
          simpa [Policy.collectRoles, htaken, hknown, about, ConfigProblem.topic?] using ih hheld
      | false =>
          cases hrole : roles.get? name with
          | none =>
              have hunknown : roles.contains name = false := by simp [SortedMap.contains, hrole]
              simpa [Policy.collectRoles, htaken, hrole, hunknown, about, ConfigProblem.topic?]
                using ih hheld
          | some role =>
              have hknown : roles.contains name = true := by simp [SortedMap.contains, hrole]
              have hmore : ∀ q, (held.insert name role).contains q = true →
                  roles.contains q = true := by
                intro q hq
                rw [SortedMap.contains_insert, Bool.or_eq_true, decide_eq_true_iff] at hq
                rcases hq with rfl | hq
                · exact hknown
                · exact hheld q hq
              simpa [Policy.collectRoles, htaken, hrole, hknown] using ih hmore

/-! ## Steps -/

/-- The problems on each topic are those of a report more. -/
def Reports (report : Topic → List ConfigProblem) (d d' : Draft) : Prop :=
  ∀ topic, about topic d'.problems = about topic d.problems ++ report topic

theorem reports_foldl {ε : Type} {add : Draft → ε → Draft} {report : ε → Topic → List ConfigProblem}
    {I : Draft → Prop} (hkeep : ∀ d e, I d → I (add d e))
    (hstep : ∀ d e, I d → Reports (report e) d (add d e)) (entries : List ε) (h : I d) :
    Reports (fun topic => entries.flatMap (report · topic)) d (entries.foldl add d) := by
  induction entries generalizing d with
  | nil =>
      intro topic
      simp
  | cons e rest ih =>
      intro topic
      rw [List.foldl_cons, ih (hkeep d e h), hstep d e h, List.append_assoc]
      rfl

theorem reports_addRole (d : Draft) (role : RoleEntry) :
    Reports role.report d (d.addRole role) := by
  intro topic
  have hcases := addRole_cases d role
  rw [problems_readGrants_eq] at hcases
  rw [← about_badGrants]
  rcases hcases with ⟨-, hadd⟩ | ⟨hgrants, -, hadd⟩ | ⟨hgrants, -, hadd⟩
  · rw [hadd, about_append]
  · simp [hadd, hgrants, about, ConfigProblem.topic?]
  · simp [hadd, hgrants]

theorem about_badMember {user : String} (htopic : topic ≠ .unknownRole)
    (faults : List MembershipFault) : about topic (faults.map (.badMember user)) = [] := by
  refine about_eq_nil ?_
  intro p hp
  rcases List.mem_map.1 hp with ⟨fault, -, rfl⟩
  cases fault <;> simp [ConfigProblem.topic?, Ne.symm htopic]

/-- The faults of a user are added unless the credential cannot be used, be there any or none. -/
theorem problems_addUser_of_credential {user : UserEntry} {credential : Credential}
    (hcredential : user.password.credential = .ok credential) :
    (d.addUser user).problems = d.problems ++
      (d.userFaults user).map (.badMember user.name) := by
  rcases addUser_cases d user with
    ⟨fault, hfault, -⟩ | ⟨_, -, ⟨-, hadd⟩ | ⟨hnone, hadd⟩⟩
  · rw [hcredential] at hfault
    cases hfault
  · rw [hadd]
  · simp [hadd, hnone]

theorem reports_addUser {Declared : String → Prop} [DecidablePred Declared]
    (hdeclared : ∀ q, d.policy.roles.contains q = true ↔ Declared q) (user : UserEntry) :
    Reports (user.report Declared) d (d.addUser user) := by
  intro topic
  cases hcredential : user.password.credential with
  | error fault =>
      have hproblems : (d.addUser user).problems =
          d.problems ++ [.badCredential user.name fault] := by
        simp only [Draft.addUser, hcredential]
      rw [hproblems, about_append]
      cases topic <;> simp [UserEntry.report, UserEntry.badCredentials, UserEntry.unknownRoles,
        hcredential, about, ConfigProblem.topic?]
  | ok credential =>
      rw [problems_addUser_of_credential hcredential, about_append]
      cases topic with
      | grant => rw [about_badMember (by decide), UserEntry.report]
      | credential =>
          rw [about_badMember (by decide), UserEntry.report, UserEntry.badCredentials, hcredential]
      | unknownRole =>
          have hnone : ∀ q, (SortedMap.empty : SortedMap String Role).contains q = true →
              d.policy.roles.contains q = true := by
            intro q hq
            cases hq
          -- a name that is taken is on no topic
          have htaken : about .unknownRole ((if d.policy.users.contains user.name then
              [MembershipFault.takenName user.name] else []).map (.badMember user.name)) = [] := by
            split <;> rfl
          rw [Draft.userFaults, List.map_append, about_append, about_collectRoles hnone, htaken, List.append_nil]
          simp only [UserEntry.report, UserEntry.unknownRoles, hcredential, hdeclared]

/-! ## Declared roles -/

/-- Some role with a name has nothing but valid grants. -/
def Declares (c : Config) (name : String) : Prop :=
  ∃ role ∈ c.roles, role.IsValid ∧ role.name = name

instance : DecidablePred c.Declares := fun _ => inferInstanceAs (Decidable (∃ _ ∈ _, _))

/-- A role is declared if all of its grants are valid, unless its name is taken. -/
theorem contains_addRole (d : Draft) (role : RoleEntry) :
    (d.addRole role).policy.roles.contains q = true ↔
      d.policy.roles.contains q = true ∨ role.IsValid ∧ role.name = q := by
  have hcases := addRole_cases d role
  rw [problems_readGrants_eq] at hcases
  rw [← badGrants_eq_nil_iff]
  rcases hcases with ⟨hbad, hadd⟩ | ⟨hgrants, htaken, hadd⟩ | ⟨hgrants, -, hadd⟩
  · simp [hadd, hbad]
  · simp only [hadd, hgrants, true_and]
    refine (or_iff_left_of_imp ?_).symm
    rintro rfl
    exact htaken
  · simp only [hadd, hgrants, true_and, SortedMap.contains_insert, Bool.or_eq_true,
      decide_eq_true_iff]
    rw [or_comm, eq_comm (a := q)]

theorem contains_foldl_addRole (entries : List RoleEntry) :
    (entries.foldl Draft.addRole d).policy.roles.contains q = true ↔
      d.policy.roles.contains q = true ∨ ∃ role ∈ entries, role.IsValid ∧ role.name = q := by
  induction entries generalizing d with
  | nil => simp
  | cons role rest ih =>
      rw [List.foldl_cons, ih, contains_addRole, List.exists_mem_cons_iff, or_assoc]

theorem roles_addUser (d : Draft) (user : UserEntry) :
    (d.addUser user).policy.roles = d.policy.roles := by
  rcases addUser_cases d user with ⟨_, -, hadd⟩ | ⟨_, -, ⟨-, hadd⟩ | ⟨-, hadd⟩⟩ <;> rw [hadd]

/-! ## The report -/

theorem contains_roleDraft : c.roleDraft.policy.roles.contains q = true ↔ c.Declares q := by
  rw [roleDraft, contains_foldl_addRole, Declares]
  exact or_iff_right (fun h => by cases h)

/-- The problems on a topic are those of the roles and then those of the users. -/
theorem about_draft (c : Config) (topic : Topic) :
    about topic c.draft.problems =
      c.roles.flatMap (·.report topic) ++ c.users.flatMap (·.report c.Declares topic) := by
  have hroles : Reports _ ⟨∅, []⟩ c.roleDraft :=
    reports_foldl (I := fun _ => True) (fun _ _ => id) (fun d role _ => reports_addRole d role)
      c.roles trivial
  -- users leave the roles as they are
  have husers : Reports _ c.roleDraft c.draft :=
    reports_foldl (I := fun d => ∀ q, d.policy.roles.contains q = true ↔ c.Declares q)
      (fun d user h => by rwa [roles_addUser]) (fun d user h => reports_addUser h user)
      c.users (fun _ => contains_roleDraft)
  rw [husers topic, hroles topic]
  rfl

/-- A configuration that is refused is reported with every grant that has no valid pattern and every
credential that cannot be used, entry by entry.  Of a user with a usable credential every listed
role is reported that no entry with valid grants declares, and no other role is called unknown. -/
theorem report_of_policy {e : StoreError} (h : c.policy = .error e) :
    ∃ problems, e = .configValidation problems ∧
      about .grant problems = c.roles.flatMap RoleEntry.badGrants ∧
      about .credential problems = c.users.flatMap UserEntry.badCredentials ∧
      about .unknownRole problems = c.users.flatMap (UserEntry.unknownRoles c.Declares) := by
  have hproblems : e = .configValidation c.draft.problems := by
    unfold Config.policy at h
    simp only at h
    split_ifs at h
    exact (Except.error.inj h).symm
  refine ⟨c.draft.problems, hproblems, ?_, ?_, ?_⟩
  · simp [about_draft, RoleEntry.report, UserEntry.report]
  · simp [about_draft, RoleEntry.report, UserEntry.report]
  · simp [about_draft, RoleEntry.report, UserEntry.report]

/-! ## Two users -/

/-- A configuration with a role whose grant is invalid, a user in that role, and a user in a role
that there is not, whose credential cannot be used. -/
def faulty : Config :=
  ⟨none, "db", none, [⟨"a", [⟨.read, "x"⟩]⟩],
    [⟨"u", ⟨"PBKDF2WithHmacSHA256:1:8", "00", "00"⟩, ["a"]⟩,
      ⟨"v", ⟨"MD5", "00", "00"⟩, ["missing"]⟩],
    none, .standard⟩

theorem policy_faulty : faulty.policy = .error (.configValidation
    [.badGrant "a" "x" .notAbsolute, .badMember "u" (.unknownRole "a"),
      .badCredential "v" (.unparseableAlgorithm "MD5")]) := by
  have hproblems : faulty.draft.problems = [.badGrant "a" "x" .notAbsolute,
      .badMember "u" (.unknownRole "a"), .badCredential "v" (.unparseableAlgorithm "MD5")] := by
    decide +kernel
  unfold Config.policy
  simp [hproblems]

/-- The report on it has a problem for each part. -/
theorem report_of_policy_faulty :
    ∃ e, faulty.policy = .error e ∧ ∃ problems, e = .configValidation problems ∧
      about .grant problems = faulty.roles.flatMap RoleEntry.badGrants ∧
      about .credential problems = faulty.users.flatMap UserEntry.badCredentials ∧
      about .unknownRole problems = faulty.users.flatMap (UserEntry.unknownRoles faulty.Declares) :=
  ⟨_, policy_faulty, report_of_policy policy_faulty⟩

/-- A role with an entry is called unknown, and one without any is not mentioned. -/
theorem exists_misreported :
    ∃ problems, faulty.policy = .error (.configValidation problems) ∧
      (∃ role ∈ faulty.roles, role.name = "a") ∧
      .badMember "u" (.unknownRole "a") ∈ problems ∧
      (∃ user ∈ faulty.users, user.name = "v" ∧ "missing" ∈ user.roles) ∧
      (∀ role ∈ faulty.roles, role.name ≠ "missing") ∧
      .badMember "v" (.unknownRole "missing") ∉ problems :=
  ⟨_, policy_faulty, by decide, by decide, by decide, by decide, by decide⟩

end Config
end GuardedStore
