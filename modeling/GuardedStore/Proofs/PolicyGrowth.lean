import GuardedStore.Proofs.ValidConfigurations

/-!
# PolicyGrowth — what calls make of a policy

A policy is built by calls that declare a role or enrol a user.  A call that is refused leaves the
policy as it is, and one that is accepted adds one role or one user under a name that is not taken
(`Policy.Grows`).  So whatever the calls are, each name leads to what was first added under it, and
users hold the very roles that are declared (`Policy.Built`).

A user is refused for every role in the list that is unknown or comes again, in the order of the
list, and for a name that is taken (`Policy.enrolFaults`).
-/

namespace GuardedStore
namespace Policy

/-- What a user is enrolled with. -/
structure Enrolment where
  name : String
  credential : Credential
  roleNames : List String

/-- A call to a policy that is being built. -/
inductive Call where
  | declare (role : Role)
  | enrol (e : Enrolment)

/-- The policy after a call, and whether it was accepted. -/
def perform (p : Policy) : Call → Policy × Except StoreError Unit
  | .declare role => match p.declare role with
    | .error fault => (p, .error (.config fault))
    | .ok p' => (p', .ok ())
  | .enrol e => match p.enrol e.name e.credential e.roleNames with
    | .error faults => (p, .error (.configValidation (faults.map .membership)))
    | .ok p' => (p', .ok ())

/-- The policy after some calls. -/
def performAll (p : Policy) : List Call → Policy
  | [] => p
  | call :: rest => (p.perform call).1.performAll rest

variable {p p' : Policy} {call : Call} {calls : List Call} {role : Role} {e : Enrolment}
  {q name : String} {names seen : List String} {declared held : SortedMap String Role}

/-! ## Faults in a list of roles -/

/-- What is wrong with the name of a role, behind some earlier names. -/
def fault? (declared : SortedMap String Role) (earlier : List String) (name : String) :
    Option MembershipFault :=
  if declared.contains name then if name ∈ earlier then some (.repeatedRole name) else none
  else some (.unknownRole name)

/-- What is wrong with a list of names of roles, place by place. -/
def roleFaults (declared : SortedMap String Role) (names : List String) : List MembershipFault :=
  names.zipIdx.filterMap (fun place => fault? declared (names.take place.2) place.1)

/-- Everything for which a user is refused. -/
def enrolFaults (p : Policy) (e : Enrolment) : List MembershipFault :=
  roleFaults p.roles e.roleNames ++ if p.users.contains e.name then [.takenName e.name] else []

/-- The roles that are held are those of some names that are declared. -/
def Collected (declared held : SortedMap String Role) (seen : List String) : Prop :=
  ∀ q, held.contains q = true ↔ declared.contains q = true ∧ q ∈ seen

namespace Collected

/-- A name that is unknown, or whose role is held, changes nothing. -/
theorem skip (h : Collected declared held seen)
    (hskip : declared.contains name = true → name ∈ seen) :
    Collected declared held (seen ++ [name]) := by
  intro q
  rw [h q, List.mem_append, List.mem_singleton]
  constructor
  · exact fun hq => ⟨hq.1, .inl hq.2⟩
  · rintro ⟨hknown, hmem | rfl⟩
    · exact ⟨hknown, hmem⟩
    · exact ⟨hknown, hskip hknown⟩

theorem insert (h : Collected declared held seen) (hknown : declared.contains name = true)
    (role : Role) : Collected declared (held.insert name role) (seen ++ [name]) := by
  intro q
  rw [SortedMap.contains_insert, Bool.or_eq_true, decide_eq_true_iff, h q, List.mem_append,
    List.mem_singleton]
  constructor
  · rintro (rfl | hq)
    · exact ⟨hknown, .inr rfl⟩
    · exact ⟨hq.1, .inl hq.2⟩
  · rintro ⟨hq, hmem | hname⟩
    · exact .inr ⟨hq, hmem⟩
    · exact .inl hname

/-- The faults of the names that come behind those that have been seen. -/
theorem faults_eq (h : Collected declared held seen) (names : List String) :
    (collectRoles declared held names).2 = (names.zipIdx seen.length).filterMap
      (fun place => fault? declared ((seen ++ names).take place.2) place.1) := by
  induction names generalizing held seen with
  | nil => rfl
  | cons name rest ih =>
      have htake : (seen ++ name :: rest).take seen.length = seen := by simp
      have hsplit : seen ++ name :: rest = (seen ++ [name]) ++ rest := by simp
      have hlength : seen.length + 1 = (seen ++ [name]).length := by simp
      rw [List.zipIdx_cons, List.filterMap_cons, htake, hsplit, hlength, collectRoles, fault?]
      have hheld := h name
      by_cases hmem : name ∈ seen
      · have hskip := ih (h.skip (fun _ => hmem))
        cases hknown : declared.contains name with
        | true => simp [hheld.2 ⟨hknown, hmem⟩, hmem, hskip]
        | false =>
            have hnone : declared.get? name = none := by simpa [SortedMap.contains] using hknown
            simp [hheld, hknown, hnone, hskip]
      · cases hrole : declared.get? name with
        | none =>
            have hunknown : declared.contains name = false := by simp [SortedMap.contains, hrole]
            have hseen : declared.contains name = true → name ∈ seen := by simp [hunknown]
            have hskip := ih (h.skip hseen)
            simp [hheld, hunknown, hskip]
        | some role =>
            have hknown : declared.contains name = true := by simp [SortedMap.contains, hrole]
            simp [hheld, hknown, hmem, ih (h.insert hknown role)]

end Collected

theorem collected_nil (declared : SortedMap String Role) : Collected declared .empty [] := by
  intro q
  simp [SortedMap.contains]

theorem faults_collectRoles_empty (declared : SortedMap String Role) (names : List String) :
    (collectRoles declared .empty names).2 = roleFaults declared names :=
  (collected_nil declared).faults_eq names

theorem roleFaults_eq_nil_iff :
    roleFaults declared names = [] ↔
      names.Nodup ∧ ∀ name ∈ names, declared.contains name = true := by
  have hfree : ∀ name, (SortedMap.empty : SortedMap String Role).contains name = false :=
    fun _ => rfl
  simp only [← faults_collectRoles_empty, Config.faults_collectRoles, hfree, true_and]

theorem enrolFaults_eq_nil_iff : p.enrolFaults e = [] ↔
    p.users.contains e.name = false ∧ e.roleNames.Nodup ∧
      ∀ name ∈ e.roleNames, p.roles.contains name = true := by
  rw [enrolFaults, List.append_eq_nil_iff, roleFaults_eq_nil_iff]
  cases p.users.contains e.name <;> simp

/-! ## One call -/

/-- A user is enrolled with the roles that the policy declares under some different names. -/
structure Enrols (p : Policy) (e : Enrolment) (u : User) : Prop where
  name : u.name = e.name
  credential : u.credential = e.credential
  distinct : e.roleNames.Nodup
  declared : ∀ q ∈ e.roleNames, p.roles.contains q = true
  roles : ∀ q, u.roles.get? q = if q ∈ e.roleNames then p.roles.get? q else none

/-- What a call that is accepted does to a policy. -/
inductive Grows (p : Policy) : Call → Policy → Prop where
  | declare {role : Role} (hfree : p.roles.contains role.name = false) :
      Grows p (.declare role) { p with roles := p.roles.insert role.name role }
  | enrol {e : Enrolment} {u : User} (hfree : p.users.contains e.name = false)
      (henrols : p.Enrols e u) : Grows p (.enrol e) { p with users := p.users.insert e.name u }

theorem perform_declare (p : Policy) (role : Role) :
    p.perform (.declare role) =
      if p.roles.contains role.name then (p, .error (.config (.takenRole role.name)))
      else ({ p with roles := p.roles.insert role.name role }, .ok ()) := by
  rw [perform, Policy.declare]
  split_ifs <;> rfl

/-- The user with the roles that are collected. -/
def Enrolment.user (p : Policy) (e : Enrolment) : User :=
  ⟨e.name, e.credential, (collectRoles p.roles .empty e.roleNames).1⟩

theorem enrol_eq (p : Policy) (e : Enrolment) :
    p.enrol e.name e.credential e.roleNames =
      if (p.enrolFaults e).isEmpty then
        .ok { p with users := p.users.insert e.name (e.user p) }
      else .error (p.enrolFaults e) := by
  simp only [Policy.enrol, enrolFaults, faults_collectRoles_empty, Enrolment.user]
  rfl

/-- The roles that are collected without faults are the declared ones with the names. -/
theorem enrols_user (h : p.enrolFaults e = []) : p.Enrols e (e.user p) := by
  rcases enrolFaults_eq_nil_iff.1 h with ⟨-, hdistinct, hdeclared⟩
  have hnone : (collectRoles p.roles .empty e.roleNames).2 = [] := by
    rw [faults_collectRoles_empty, roleFaults_eq_nil_iff]
    exact ⟨hdistinct, hdeclared⟩
  refine ⟨rfl, rfl, hdistinct, hdeclared, ?_⟩
  intro q
  refine Option.ext ?_
  intro role
  rw [Enrolment.user, Config.get?_collectRoles hnone]
  split_ifs with hmem <;> simp [hmem]

theorem perform_enrol (p : Policy) (e : Enrolment) :
    p.perform (.enrol e) =
      if (p.enrolFaults e).isEmpty then
        ({ p with users := p.users.insert e.name (e.user p) }, .ok ())
      else (p, .error (.configValidation ((p.enrolFaults e).map .membership))) := by
  rw [perform, enrol_eq]
  split_ifs <;> rfl

/-- A call is accepted, or it leaves the policy as it is. -/
theorem perform_cases (p : Policy) (call : Call) :
    (∃ p', p.perform call = (p', .ok ()) ∧ p.Grows call p') ∨
      ∃ error, p.perform call = (p, .error error) := by
  cases call with
  | declare role =>
      rw [perform_declare]
      cases hfree : p.roles.contains role.name with
      | true => exact .inr ⟨_, rfl⟩
      | false => exact .inl ⟨_, rfl, .declare hfree⟩
  | enrol e =>
      rw [perform_enrol]
      by_cases hfaults : p.enrolFaults e = []
      · rw [if_pos (by simpa using hfaults)]
        exact .inl ⟨_, rfl, .enrol (enrolFaults_eq_nil_iff.1 hfaults).1 (enrols_user hfaults)⟩
      · rw [if_neg (by simpa using hfaults)]
        exact .inr ⟨_, rfl⟩

/-- A user who is enrolled keeps the same roles while the policy grows. -/
theorem Enrols.grows {u : User} (h : p.Enrols e u) (hgrows : p.Grows call p') :
    p'.Enrols e u := by
  cases hgrows with
  | enrol hfree henrols => exact ⟨h.name, h.credential, h.distinct, h.declared, h.roles⟩
  | @declare role hfree =>
      -- the new role has another name than those that are held
      have hne : ∀ q ∈ e.roleNames, q ≠ role.name := by
        rintro q hq rfl
        rw [h.declared _ hq] at hfree
        cases hfree
      refine ⟨h.name, h.credential, h.distinct, ?_, ?_⟩
      · intro q hq
        rw [SortedMap.contains_insert, h.declared q hq, Bool.or_true]
      · intro q
        rw [h.roles q, SortedMap.get?_insert]
        split_ifs with hq hname
        · exact absurd hname (hne q hq)
        · rfl
        · rfl

/-! ## Many calls -/

/-- The role that a call declares, whether or not it is accepted. -/
def Call.role? : Call → Option Role
  | .declare role => some role
  | .enrol _ => none

/-- What a call enrols a user with, if it is accepted. -/
def enrolled? (p : Policy) : Call → Option Enrolment
  | .declare _ => none
  | .enrol e => if (p.enrolFaults e).isEmpty then some e else none

/-- What users are enrolled with by the calls that are accepted. -/
def enrolled (p : Policy) : List Call → List Enrolment
  | [] => []
  | call :: rest => (p.enrolled? call).toList ++ (p.perform call).1.enrolled rest

/-- A declared role takes its name, unless that is taken. -/
theorem get?_roles_declare (p : Policy) (role : Role) (q : String) :
    (p.perform (.declare role)).1.roles.get? q =
      (p.roles.get? q).or (if role.name = q then some role else none) := by
  rw [perform_declare]
  by_cases hq : role.name = q
  · subst hq
    cases hfirst : p.roles.get? role.name with
    | none => simp [SortedMap.contains, hfirst, SortedMap.get?_insert]
    | some first => simp [SortedMap.contains, hfirst]
  · rw [if_neg hq, Option.or_none]
    split_ifs
    · rfl
    · rw [SortedMap.get?_insert, if_neg (Ne.symm hq)]

theorem roles_enrol (p : Policy) (e : Enrolment) : (p.perform (.enrol e)).1.roles = p.roles := by
  rw [perform_enrol]
  split_ifs <;> rfl

/-- Under each name there is the role that was first declared under it. -/
theorem get?_roles_performAll (p : Policy) (calls : List Call) (q : String) :
    (p.performAll calls).roles.get? q =
      (p.roles.get? q).or ((calls.filterMap Call.role?).find? (·.name = q)) := by
  induction calls generalizing p with
  | nil => simp [performAll]
  | cons call rest ih =>
      cases call with
      | enrol e =>
          rw [performAll, ih, roles_enrol]
          rfl
      | declare role =>
          have hlist : (Call.declare role :: rest).filterMap Call.role? =
              role :: rest.filterMap Call.role? := rfl
          rw [performAll, ih, get?_roles_declare, Option.or_assoc, hlist, List.find?_cons]
          by_cases hq : role.name = q <;> simp [hq]

/-- A policy holds the users of some enrolments, no two of which have the same name. -/
structure Holds (p : Policy) (done : List Enrolment) : Prop where
  registers : Registers Enrolment.name p.Enrols done p.users
  distinct : (done.map Enrolment.name).Nodup

namespace Holds

variable {done : List Enrolment}

theorem empty : Holds ∅ [] := ⟨.nil, .nil⟩

/-- A call adds a user if it is accepted, and all others stay. -/
theorem perform (h : p.Holds done) (call : Call) :
    (p.perform call).1.Holds (done ++ (p.enrolled? call).toList) := by
  cases call with
  | declare role =>
      rw [enrolled?, Option.toList_none, List.append_nil, perform_declare]
      cases hfree : p.roles.contains role.name with
      | true => exact h
      | false =>
          exact ⟨h.registers.mono (fun _ _ henrols => henrols.grows (.declare hfree)), h.distinct⟩
  | enrol e =>
      rw [perform_enrol, enrolled?]
      by_cases hfaults : p.enrolFaults e = []
      · have hfree := (enrolFaults_eq_nil_iff.1 hfaults).1
        have henrols := enrols_user hfaults
        have hnew : e.name ∉ done.map Enrolment.name := by
          rw [← h.registers.contains_iff, hfree]
          exact Bool.false_ne_true
        rw [if_pos (by simpa using hfaults), if_pos (by simpa using hfaults)]
        refine ⟨(h.registers.insert hfree henrols).mono
          (fun _ _ hearlier => hearlier.grows (.enrol hfree henrols)), ?_⟩
        rw [Option.toList_some, List.map_append, List.map_singleton, ← List.concat_eq_append]
        exact h.distinct.concat hnew
      · rw [if_neg (by simpa using hfaults), if_neg (by simpa using hfaults), Option.toList_none,
          List.append_nil]
        exact h

theorem performAll (h : p.Holds done) (calls : List Call) :
    (p.performAll calls).Holds (done ++ p.enrolled calls) := by
  induction calls generalizing p done with
  | nil =>
      rw [enrolled, List.append_nil]
      exact h
  | cons call rest ih =>
      have hrest := ih (h.perform call)
      rw [List.append_assoc] at hrest
      exact hrest

end Holds

/-! ## Policies that are built -/

/-- What a policy is that was built by some calls, and how it answers the next one. -/
structure Built (calls : List Call) (p : Policy) : Prop where
  /-- Under each name there is the role that was first declared under it. -/
  roles : ∀ q, p.roles.get? q = (calls.filterMap Call.role?).find? (·.name = q)
  /-- Under each name there is the user who was first enrolled under it, with the roles that are
  declared under the names in the list. -/
  users : p.Holds (enrolled ∅ calls)
  /-- A call that is refused changes nothing. -/
  unchanged : ∀ call error, (p.perform call).2 = .error error → (p.perform call).1 = p
  /-- A role is refused if its name is taken. -/
  declares : ∀ role, (∃ error, (p.perform (.declare role)).2 = .error error) ↔
    role.name ∈ (calls.filterMap Call.role?).map Role.name
  /-- A user is refused if the name is taken, or if some role in the list comes again or is
  unknown. -/
  enrols : ∀ e, (∃ error, (p.perform (.enrol e)).2 = .error error) ↔
    e.name ∈ (enrolled ∅ calls).map Enrolment.name ∨ ¬ e.roleNames.Nodup ∨
      ∃ q ∈ e.roleNames, q ∉ (calls.filterMap Call.role?).map Role.name
  /-- All faults are told, place by place, and the name that is taken at the end. -/
  faults : ∀ e error, (p.perform (.enrol e)).2 = .error error →
    error = .configValidation ((p.enrolFaults e).map .membership)

theorem exists_error_declare_iff : (∃ error, (p.perform (.declare role)).2 = .error error) ↔
    p.roles.contains role.name = true := by
  rw [perform_declare]
  split_ifs with htaken <;> simp [htaken]

theorem exists_error_enrol_iff : (∃ error, (p.perform (.enrol e)).2 = .error error) ↔
    p.enrolFaults e ≠ [] := by
  rw [perform_enrol]
  cases p.enrolFaults e <;> simp

/-- Whatever the calls are, the policy that they build holds what was first added under each name,
and the next call is accepted, or refused for all of its faults and without a trace. -/
theorem built_performAll (calls : List Call) : Built calls (performAll ∅ calls) := by
  have hroles : ∀ q, (performAll ∅ calls).roles.get? q =
      (calls.filterMap Call.role?).find? (·.name = q) := by
    intro q
    rw [get?_roles_performAll]
    exact Option.none_or
  have hdeclared : ∀ q, (performAll ∅ calls).roles.contains q = true ↔
      q ∈ (calls.filterMap Call.role?).map Role.name := by
    intro q
    rw [SortedMap.contains, hroles, List.find?_isSome, List.mem_map]
    simp only [decide_eq_true_eq]
  have hholds : (performAll ∅ calls).Holds (enrolled ∅ calls) := Holds.empty.performAll calls
  refine ⟨hroles, hholds, ?_, ?_, ?_, ?_⟩
  · intro call error herror
    rcases perform_cases (performAll ∅ calls) call with ⟨p', haccepted, -⟩ | ⟨_, hrefused⟩
    · rw [haccepted] at herror
      cases herror
    · rw [hrefused]
  · intro role
    rw [exists_error_declare_iff, hdeclared]
  · intro e
    rw [exists_error_enrol_iff, Ne, enrolFaults_eq_nil_iff, ← hholds.registers.contains_iff,
      not_and_or, not_and_or, Bool.not_eq_false]
    simp only [← hdeclared, not_forall, exists_prop]
  · intro e error herror
    rw [perform_enrol] at herror
    split_ifs at herror
    cases herror
    rfl

/-- A role that comes again, one that is unknown, and a name that is taken. -/
example :
    (performAll ∅ [.declare ⟨"r", []⟩, .enrol ⟨"u", .unusable, ["r"]⟩]).enrolFaults
      ⟨"u", .unusable, ["r", "r", "missing"]⟩ =
        [.repeatedRole "r", .unknownRole "missing", .takenName "u"] := by
  decide +kernel

end Policy
end GuardedStore
