import GuardedStore.Config.Basic
import GuardedStore.Proofs.WireMessages
import GuardedStore.Proofs.WrittenNumerals

/-!
# ConfigurationText — a configuration is read as it was written

What `Config.encode` makes of a configuration, `Config.parse` reads as that configuration
(`Config.reparsed_of_parse`), if the configuration is one that was accepted before and the numeral
of its probability reads back.  Each record is read back by itself (`ofJson?_toJson`); members that
are left out because there is nothing to say are found to be missing (`Json.optional_map`).
-/

namespace GuardedStore
namespace Json

/-- A field that is left out if there is nothing to say is read back. -/
theorem optional_map {α : Type} {read : Json → Option α} {write : α → Json} {o : Option α}
    (hnull : ∀ a, write a ≠ .null) (hread : ∀ a ∈ o, read (write a) = some a) :
    optional read (o.map write) = some o := by
  cases o with
  | none => rfl
  | some a =>
      rw [Option.map_some, optional.eq_3 read (write a) (hnull a), hread a rfl]
      rfl

theorem uint64?_ofUInt64 (n : UInt64) : uint64? (ofUInt64 n) = some n := by
  have hn : n.toNat ≤ Text.largest64 := Nat.le_of_lt_succ n.toNat_lt
  rw [ofUInt64, uint64?, Numeral.natural?_ofNat hn, Option.map_some, UInt64.ofNat_toNat]

/-- An object can be read if its values can. -/
theorem hasProperNumerals_ofMembers {members : List (String × Json)}
    (h : ∀ m ∈ members, m.2.HasProperNumerals) : (ofMembers members).HasProperNumerals := by
  rw [ofMembers, HasProperNumerals]
  exact membersHaveProperNumerals_iff.2 (List.forall_mem_map.2 h)

end Json

open Json (IsTextual)

theorem Action.ofJson?_toJson (a : Action) : ofJson? a.toJson = some a := by
  cases a <;> simp [ofJson?, toJson, Json.ofText, Json.bytesText?_textBytes] <;> rfl

/-! ## Entries -/

namespace Config

namespace GrantEntry

theorem isTextual_toJson (g : GrantEntry) : IsTextual 1 g.toJson := by
  refine .object ?_
  simp only [List.forall_mem_cons]
  exact ⟨.text _, .text g.keys, by simp⟩

theorem ofJson?_toJson (g : GrantEntry) : ofJson? g.toJson = some g := by
  have hread : form.read? g.toJson = some _ :=
    Json.RecordForm.read?_ofMembers (by decide) rfl
  simp only [ofJson?, hread]
  simp [Json.required, Action.ofJson?_toJson]

end GrantEntry

namespace RoleEntry

theorem isTextual_toJson (r : RoleEntry) : IsTextual 3 r.toJson := by
  refine .object ?_
  simp only [List.forall_mem_cons]
  refine ⟨.text r.name, .array (List.forall_mem_map.2 ?_), by simp⟩
  exact fun g _ => g.isTextual_toJson

theorem ofJson?_toJson (r : RoleEntry) : ofJson? r.toJson = some r := by
  have hread : form.read? r.toJson = some _ :=
    Json.RecordForm.read?_ofMembers (by decide) rfl
  have hgrants : Json.items? GrantEntry.ofJson? (.array (r.grants.map GrantEntry.toJson)) =
      some r.grants := Json.readEach_map GrantEntry.ofJson?_toJson r.grants
  simp only [ofJson?, hread]
  simp [Json.required, Json.withDefault, hgrants]

end RoleEntry

namespace CredentialEntry

theorem isTextual_toJson (c : CredentialEntry) : IsTextual 1 c.toJson := by
  refine .object ?_
  simp only [List.forall_mem_cons]
  exact ⟨.text c.algorithm, .text c.salt, .text c.hash, by simp⟩

theorem ofJson?_toJson (c : CredentialEntry) : ofJson? c.toJson = some c := by
  have hread : form.read? c.toJson = some _ :=
    Json.RecordForm.read?_ofMembers (by decide) rfl
  simp only [ofJson?, hread]
  simp [Json.required]

end CredentialEntry

namespace UserEntry

theorem isTextual_toJson (u : UserEntry) : IsTextual 2 u.toJson := by
  refine .object ?_
  simp only [List.forall_mem_cons]
  refine ⟨.text u.name, u.password.isTextual_toJson, .array (List.forall_mem_map.2 ?_), by simp⟩
  exact fun s _ => .text s

theorem ofJson?_toJson (u : UserEntry) : ofJson? u.toJson = some u := by
  have hread : form.read? u.toJson = some _ :=
    Json.RecordForm.read?_ofMembers (by decide) rfl
  have hroles : Json.texts? (.array (u.roles.map Json.ofText)) = some u.roles :=
    Wire.texts?_textArray u.roles
  simp only [ofJson?, hread]
  simp [Json.required, Json.withDefault, CredentialEntry.ofJson?_toJson, hroles]

end UserEntry
end Config

/-! ## Settings -/

namespace StorageSettings

theorem hasProperNumerals_toJson (s : StorageSettings) : s.toJson.HasProperNumerals := by
  refine Json.hasProperNumerals_ofMembers ?_
  simp only [List.forall_mem_cons, Json.ofUInt64, Json.HasProperNumerals]
  exact ⟨Json.Numeral.isProper_ofNat _, Json.Numeral.isProper_ofNat _, trivial, by simp⟩

theorem ofJson?_toJson (s : StorageSettings) : ofJson? s.toJson = some s := by
  have hread : form.read? s.toJson = some _ :=
    Json.RecordForm.read?_ofMembers (by decide) rfl
  simp only [ofJson?, hread]
  simp [Json.withDefault, Json.uint64?_ofUInt64, Json.bool?]

end StorageSettings

namespace FaultInjection

/-- The numeral of the probability is read as the probability. -/
def ReadsBack (f : FaultInjection) : Prop :=
  (Json.Numeral.ofFloat f.probability).toFloat? = some f.probability

theorem hasProperNumerals_toJson (f : FaultInjection) : f.toJson.HasProperNumerals := by
  refine Json.hasProperNumerals_ofMembers ?_
  simp only [List.forall_mem_cons, Json.HasProperNumerals]
  exact ⟨Json.Numeral.isProper_ofFloat _, by simp⟩

theorem ofJson?_toJson {f : FaultInjection} (h : f.ReadsBack) : ofJson? f.toJson = some f := by
  have hread : form.read? f.toJson = some _ :=
    Json.RecordForm.read?_ofMembers (by decide) rfl
  have hfloat : float? (.number (.ofFloat f.probability)) = some f.probability := h
  simp only [ofJson?, hread]
  simp [Json.required, hfloat]

end FaultInjection

/-! ## Configurations -/

namespace Config

variable {c : Config} {bytes : List UInt8}

theorem mem_member {α : Type} {name : String} {write : α → Json} {o : Option α}
    {m : String × Json} : m ∈ member name write o ↔ ∃ a ∈ o, m = (name, write a) := by
  cases o <;> simp [member]

theorem hasProperNumerals_toJson (c : Config) : c.toJson.HasProperNumerals := by
  have htext : ∀ s, (Json.ofText s).HasProperNumerals := fun s =>
    (IsTextual.text (n := 0) s).hasProperNumerals
  have hroles : (Json.array (c.roles.map RoleEntry.toJson)).HasProperNumerals :=
    (IsTextual.array (List.forall_mem_map.2 fun r _ => r.isTextual_toJson)).hasProperNumerals
  have husers : (Json.array (c.users.map UserEntry.toJson)).HasProperNumerals :=
    (IsTextual.array (List.forall_mem_map.2 fun u _ => u.isTextual_toJson)).hasProperNumerals
  refine Json.hasProperNumerals_ofMembers ?_
  intro m hm
  simp only [List.mem_append, mem_member, List.mem_cons, List.not_mem_nil, or_false, or_assoc]
    at hm
  rcases hm with ⟨s, -, rfl⟩ | rfl | ⟨s, -, rfl⟩ | rfl | rfl | ⟨f, -, rfl⟩ | rfl
  · exact htext s
  · exact htext c.databaseFile
  · exact htext s
  · exact hroles
  · exact husers
  · exact f.hasProperNumerals_toJson
  · exact c.storage.hasProperNumerals_toJson

/-- Whichever of the fields are left out, each field is found where it belongs. -/
theorem read?_toJson (c : Config) : form.read? c.toJson =
    some [c.schema.map Json.ofText, some (Json.ofText c.databaseFile),
      c.databaseKind.map Json.ofText, some (.array (c.roles.map RoleEntry.toJson)),
      some (.array (c.users.map UserEntry.toJson)), c.faultInjection.map FaultInjection.toJson,
      some c.storage.toJson] := by
  obtain ⟨schema, databaseFile, databaseKind, roles, users, faultInjection, storage⟩ := c
  cases schema <;> cases databaseKind <;> cases faultInjection <;>
    exact (Json.RecordForm.read?_of_nodup (by simp [member]) (by simp [member, form])).trans rfl

theorem ofJson?_toJson (h : ∀ f ∈ c.faultInjection, f.ReadsBack) : ofJson? c.toJson = some c := by
  have hroles : Json.items? RoleEntry.ofJson? (.array (c.roles.map RoleEntry.toJson)) =
      some c.roles := Json.readEach_map RoleEntry.ofJson?_toJson c.roles
  have husers : Json.items? UserEntry.ofJson? (.array (c.users.map UserEntry.toJson)) =
      some c.users := Json.readEach_map UserEntry.ofJson?_toJson c.users
  have htext : ∀ o : Option String, Json.optional Json.text? (o.map Json.ofText) = some o :=
    fun o => Json.optional_map nofun (fun s _ => Json.text?_ofText s)
  have hfaults : Json.optional FaultInjection.ofJson? (c.faultInjection.map FaultInjection.toJson) =
      some c.faultInjection :=
    Json.optional_map nofun (fun f hf => FaultInjection.ofJson?_toJson (h f hf))
  simp only [ofJson?, read?_toJson, htext, hfaults]
  simp [Json.required, Json.withDefault, hroles, husers, StorageSettings.ofJson?_toJson]

/-- Exactly the configurations with a probability in range and a known kind are accepted. -/
theorem parse_eq_ok_iff : parse bytes = .ok c ↔ (Json.readAll bytes).bind ofJson? = some c ∧
    c.faults.isValid = true ∧ ∃ kind, c.kind = .ok kind := by
  rw [parse]
  constructor
  · intro h
    split at h
    · cases h
    · next c' hread =>
        split_ifs at h with hvalid
        split at h
        · cases h
        · next kind hkind =>
            cases h
            exact ⟨hread, by simpa using hvalid, kind, hkind⟩
  · rintro ⟨hread, hvalid, kind, hkind⟩
    simp [hread, hvalid, hkind]

/-- Whatever text was accepted, the configuration is read again as it is written: every field has
the value that it had. -/
theorem reparsed_of_parse (h : parse bytes = .ok c)
    (hfaults : ∀ f ∈ c.faultInjection, f.ReadsBack) : parse c.encode = .ok c := by
  rcases parse_eq_ok_iff.1 h with ⟨-, hvalid, hkind⟩
  refine parse_eq_ok_iff.2 ⟨?_, hvalid, hkind⟩
  rw [encode, Json.readAll_write c.hasProperNumerals_toJson, Option.bind_some,
    ofJson?_toJson hfaults]

/-- A configuration without a kind and with members that are not known, some numbers at their
limits. -/
def sample : Json :=
  .ofMembers [("addresses", .array []), ("databaseFile", .ofText "store"), ("roles", .array []),
    ("users", .array []), ("faultInjection", FaultInjection.toJson ⟨0.25⟩),
    ("storage", .ofMembers [("cachePages", .null),
      ("maxRudAttempts", Json.ofUInt64 18446744073709551615)])]

theorem reparsed_of_parse_sample : ∃ c, parse (Json.write sample) = .ok c ∧
    c.storage = ⟨18446744073709551615, 5000, true⟩ ∧ parse c.encode = .ok c := by
  have hquarter : FaultInjection.ReadsBack ⟨0.25⟩ := by
    rw [FaultInjection.ReadsBack]
    decide +kernel
  have hproper : sample.HasProperNumerals := by
    simp [sample, Json.ofMembers, Json.ofText, Json.ofUInt64, Json.HasProperNumerals,
      Json.MembersHaveProperNumerals, Json.AllHaveProperNumerals, Json.Numeral.isProper_ofNat,
      FaultInjection.hasProperNumerals_toJson]
  have hfaults : Json.optional FaultInjection.ofJson? (some (FaultInjection.toJson ⟨0.25⟩)) =
      some (some ⟨0.25⟩) := congrArg (Option.map some) (FaultInjection.ofJson?_toJson hquarter)
  have hstorage : StorageSettings.ofJson? (.ofMembers [("cachePages", .null),
      ("maxRudAttempts", Json.ofUInt64 18446744073709551615)]) =
      some ⟨18446744073709551615, 5000, true⟩ := by
    have hform : StorageSettings.form.read? (.ofMembers [("cachePages", .null),
        ("maxRudAttempts", Json.ofUInt64 18446744073709551615)]) =
        some [some (Json.ofUInt64 18446744073709551615), none, none] := rfl
    simp only [StorageSettings.ofJson?, hform]
    simp [Json.withDefault, Json.uint64?_ofUInt64, StorageSettings.standard]
  have hread : ofJson? sample = some ⟨none, "store", none, [], [], some ⟨0.25⟩,
      ⟨18446744073709551615, 5000, true⟩⟩ := by
    have hform : form.read? sample = some [none, some (.ofText "store"), none, some (.array []),
      some (.array []), some (FaultInjection.toJson ⟨0.25⟩),
      some (.ofMembers [("cachePages", .null),
        ("maxRudAttempts", Json.ofUInt64 18446744073709551615)])] := rfl
    simp only [ofJson?, hform, hfaults]
    simp [Json.required, Json.optional, Json.items?, Json.readEach, Json.withDefault, hstorage]
  have hparse : parse (Json.write sample) = .ok _ :=
    parse_eq_ok_iff.2 ⟨by rw [Json.readAll_write hproper, Option.bind_some, hread],
      by decide +kernel, _, rfl⟩
  refine ⟨_, hparse, rfl, reparsed_of_parse hparse ?_⟩
  rintro f ⟨⟩
  exact hquarter

end Config
end GuardedStore
