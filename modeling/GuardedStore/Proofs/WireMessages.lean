import GuardedStore.Proofs.JsonText
import GuardedStore.Proofs.SortedMaps
import GuardedStore.Proofs.UpdateOrder
import GuardedStore.Wire.Message
import Mathlib.Data.List.Nodup

/-!
# WireMessages — a message is read as what was sent

What `Message.encode` makes of a message, `Message.parse` reads as that message
(`Message.parse_encode`), whatever texts are in it and however many entries it has; the entries of
an update keep their order.  All values that are written are made of texts (`Json.IsTextual`), so
they can be held.  A record is read field by field if its members are the declared fields in their
order (`RecordForm.read?_ofMembers`), and a closed one is refused for a member of another name
(`RecordForm.read?_eq_none`); so of the shapes that are tried in turn only the right one fits.
-/

namespace GuardedStore
namespace Json

/-! ## Values made of texts -/

/-- A value that consists of texts, with at most `n` brackets around each. -/
inductive IsTextual : Nat → Json → Prop
  | text {n : Nat} (s : String) : IsTextual n (.ofText s)
  | array {n : Nat} {items : List Json} (h : ∀ v ∈ items, IsTextual n v) :
      IsTextual (n + 1) (.array items)
  | object {n : Nat} {members : List (String × Json)} (h : ∀ m ∈ members, IsTextual n m.2) :
      IsTextual (n + 1) (.ofMembers members)

variable {n : Nat} {v : Json} {vs : List Json} {ms : List (List UInt8 × Json)}
  {members : List (String × Json)}

theorem allHaveProperNumerals_iff : AllHaveProperNumerals vs ↔ ∀ v ∈ vs, v.HasProperNumerals := by
  induction vs with
  | nil => simp [AllHaveProperNumerals]
  | cons v vs ih => simp [AllHaveProperNumerals, ih]

theorem membersHaveProperNumerals_iff :
    MembersHaveProperNumerals ms ↔ ∀ m ∈ ms, m.2.HasProperNumerals := by
  induction ms with
  | nil => simp [MembersHaveProperNumerals]
  | cons m ms ih => simp [MembersHaveProperNumerals, ih]

theorem depthOfItems_le_iff : depthOfItems vs ≤ n ↔ ∀ v ∈ vs, depth v ≤ n := by
  induction vs with
  | nil => simp [depthOfItems]
  | cons v vs ih => simp [depthOfItems, ih]

theorem depthOfMembers_le_iff : depthOfMembers ms ≤ n ↔ ∀ m ∈ ms, depth m.2 ≤ n := by
  induction ms with
  | nil => simp [depthOfMembers]
  | cons m ms ih => simp [depthOfMembers, ih]

theorem areInRange_iff : areInRange vs = true ↔ ∀ v ∈ vs, isInRange v = true := by
  induction vs with
  | nil => simp [areInRange]
  | cons v vs ih => simp [areInRange, ih]

theorem membersAreInRange_iff : membersAreInRange ms = true ↔
    ∀ m ∈ ms, (bytesText? m.1).isSome ∧ isInRange m.2 = true := by
  induction ms with
  | nil => simp [membersAreInRange]
  | cons m ms ih => simp [membersAreInRange, ih, and_assoc]

namespace IsTextual

theorem mono {k : Nat} (h : IsTextual n v) (hk : n ≤ k) : IsTextual k v := by
  induction h generalizing k with
  | text s => exact .text s
  | array _ ih =>
      obtain ⟨k, rfl⟩ := Nat.exists_eq_add_of_lt hk
      exact .array (fun v hv => ih v hv (Nat.le_add_right _ _))
  | object _ ih =>
      obtain ⟨k, rfl⟩ := Nat.exists_eq_add_of_lt hk
      exact .object (fun m hm => ih m hm (Nat.le_add_right _ _))

theorem hasProperNumerals (h : IsTextual n v) : v.HasProperNumerals := by
  induction h with
  | text s => simp only [ofText, HasProperNumerals]
  | array _ ih =>
      rw [HasProperNumerals]
      exact allHaveProperNumerals_iff.2 ih
  | object _ ih =>
      rw [ofMembers, HasProperNumerals]
      exact membersHaveProperNumerals_iff.2 (List.forall_mem_map.2 ih)

theorem depth_le (h : IsTextual n v) : depth v ≤ n := by
  induction h with
  | text s => simp [ofText, depth]
  | array _ ih =>
      rw [depth]
      exact Nat.succ_le_succ (depthOfItems_le_iff.2 ih)
  | object _ ih =>
      rw [ofMembers, depth]
      exact Nat.succ_le_succ (depthOfMembers_le_iff.2 (List.forall_mem_map.2 ih))

theorem isInRange (h : IsTextual n v) : isInRange v = true := by
  induction h with
  | text s => simp [ofText, Json.isInRange, bytesText?_textBytes]
  | array _ ih =>
      rw [Json.isInRange]
      exact areInRange_iff.2 ih
  | object _ ih =>
      rw [ofMembers, Json.isInRange]
      refine membersAreInRange_iff.2 (List.forall_mem_map.2 ?_)
      intro m hm
      exact ⟨by rw [bytesText?_textBytes]; rfl, ih m hm⟩

theorem isHoldable (h : IsTextual n v) (hn : n ≤ greatestDepth) : v.isHoldable = true := by
  simp [Json.isHoldable, h.isInRange, h.depth_le.trans hn]

end IsTextual

/-! ## Records that are read back -/

theorem namedMembers?_ofMembers (members : List (String × Json)) :
    namedMembers? (members.map (fun m => (textBytes m.1, m.2))) = some members := by
  induction members with
  | nil => rfl
  | cons m members ih => simp [namedMembers?, bytesText?_textBytes, ih]

theorem occurrences_eq_count (name : String) (members : List (String × Json)) :
    occurrences name members = (members.map (·.1)).count name := by
  rw [occurrences, List.count, List.countP_map]
  rfl

theorem member?_of_nodup {name : String} (hnodup : (members.map (·.1)).Nodup)
    (hmem : (name, v) ∈ members) : member? name members = some v := by
  induction members with
  | nil => cases hmem
  | cons m members ih =>
      rw [List.map_cons, List.nodup_cons] at hnodup
      rcases List.mem_cons.1 hmem with rfl | hmem
      · simp [member?]
      · have hother : m.1 ≠ name := by
          rintro rfl
          exact hnodup.1 (List.mem_map.2 ⟨_, hmem, rfl⟩)
        have hlater := ih hnodup.2 hmem
        rw [member?] at hlater ⊢
        rw [List.find?_cons_of_neg (by simpa using hother)]
        exact hlater

/-- An object with some of the declared fields, each of them once, is read as these fields. -/
theorem RecordForm.read?_of_nodup {form : RecordForm} (hnodup : (members.map (·.1)).Nodup)
    (hknown : ∀ m ∈ members, m.1 ∈ form.fields) :
    form.read? (.ofMembers members) = some (form.fields.map (fun f => member? f members)) := by
  have hnamed : members.all (fun m => form.fields.contains m.1) = true := by
    rw [List.all_eq_true]
    intro m hm
    simpa using hknown m hm
  have honce : form.fields.all (fun f => occurrences f members ≤ 1) = true := by
    rw [List.all_eq_true]
    intro f _
    simpa [occurrences_eq_count] using List.nodup_iff_count_le_one.1 hnodup f
  have hadmits : form.admits members = true := by
    rw [RecordForm.admits, hnamed, honce, Bool.or_true, Bool.and_true]
  simp only [ofMembers, RecordForm.read?, namedMembers?_ofMembers, hadmits, if_true]

/-- A record that is written with its fields in their order is read field by field. -/
theorem RecordForm.read?_ofMembers {form : RecordForm} (hnodup : form.fields.Nodup)
    (hfields : members.map (·.1) = form.fields) :
    form.read? (.ofMembers members) = some (members.map (fun m => some m.2)) := by
  have hknown : ∀ m ∈ members, m.1 ∈ form.fields := by
    intro m hm
    simpa [← hfields] using List.mem_map_of_mem (f := Prod.fst) hm
  have hvalues : form.fields.map (fun f => member? f members) =
      members.map (fun m => some m.2) := by
    rw [← hfields, List.map_map]
    refine List.map_congr_left ?_
    rintro ⟨name, v⟩ hmem
    exact member?_of_nodup (hfields ▸ hnodup) hmem
  rw [RecordForm.read?_of_nodup (hfields ▸ hnodup) hknown, hvalues]

/-- A closed record does not have members of other names. -/
theorem RecordForm.read?_eq_none {form : RecordForm} (hclosed : form.isOpen = false)
    {name : String} (hmem : (name, v) ∈ members) (hother : name ∉ form.fields) :
    form.read? (.ofMembers members) = none := by
  have hnamed : members.all (fun m => form.fields.contains m.1) = false := by
    rw [List.all_eq_false]
    exact ⟨(name, v), hmem, by simpa using hother⟩
  have hadmits : form.admits members = false := by
    rw [RecordForm.admits, hclosed, hnamed, Bool.or_false, Bool.false_and]
  simp [ofMembers, RecordForm.read?, namedMembers?_ofMembers, hadmits]

theorem readEach_map {α β : Type} {read : α → Option β} {write : β → α}
    (h : ∀ b, read (write b) = some b) (l : List β) : readEach read (l.map write) = some l := by
  induction l with
  | nil => rfl
  | cons b l ih => simp only [List.map_cons, readEach, h, ih]

end Json

namespace Wire

open Json (IsTextual)

section

variable (texts : List String) (members : List (String × String))

theorem isTextual_textArray : IsTextual 1 (textArray texts) := by
  refine .array ?_
  intro v hv
  obtain ⟨s, -, rfl⟩ := List.mem_map.1 hv
  exact .text s

theorem isTextual_textObject : IsTextual 1 (textObject members) := by
  refine .object ?_
  intro m hm
  obtain ⟨entry, -, rfl⟩ := List.mem_map.1 hm
  exact .text entry.2

theorem texts?_textArray : Json.texts? (textArray texts) = some texts :=
  Json.readEach_map Json.text?_ofText texts

theorem textMembers?_textObject : Json.textMembers? (textObject members) = some members := by
  rw [textObject, Json.ofMembers, List.map_map, Json.textMembers?]
  refine Json.readEach_map ?_ members
  rintro ⟨name, text⟩
  simp [Json.bytesText?_textBytes]

end

variable {name : String} {v : Json} {members : List (String × Json)}

namespace Request

theorem isTextual_toJson (r : Request) : IsTextual 2 r.toJson := by
  refine .object ?_
  simp only [List.forall_mem_cons]
  exact ⟨isTextual_textArray _, isTextual_textObject _, isTextual_textArray _, by simp⟩

theorem ofJson?_toJson (r : Request) : ofJson? r.toJson = some r := by
  have hread : form.read? r.toJson = some _ :=
    Json.RecordForm.read?_ofMembers (by decide) rfl
  simp only [ofJson?, hread]
  simp [Json.required, texts?_textArray, textMembers?_textObject, SortedSet.ofMembers_members,
    OrderedEntries.ofList_toList]

theorem ofJson?_eq_none (hmem : (name, v) ∈ members) (hother : name ∉ form.fields) :
    ofJson? (.ofMembers members) = none := by
  rw [ofJson?, Json.RecordForm.read?_eq_none rfl hmem hother]

end Request

namespace Result

theorem isTextual_toJson (r : Result) : IsTextual 2 r.toJson := by
  refine .object ?_
  simp only [List.forall_mem_cons]
  exact ⟨isTextual_textObject _, by simp⟩

theorem ofJson?_toJson (r : Result) : ofJson? r.toJson = some r := by
  have hread : form.read? r.toJson = some _ :=
    Json.RecordForm.read?_ofMembers (by decide) rfl
  have hvalues : SortedMap.ofList r.values.toList = r.values :=
    SortedMap.insertAll_empty_toList r.values
  simp only [ofJson?, hread]
  simp [Json.required, textMembers?_textObject, hvalues]

theorem ofJson?_eq_none (hmem : (name, v) ∈ members) (hother : name ∉ form.fields) :
    ofJson? (.ofMembers members) = none := by
  rw [ofJson?, Json.RecordForm.read?_eq_none rfl hmem hother]

end Result

namespace ErrorReport

theorem isTextual_toJson (e : ErrorReport) : IsTextual 1 e.toJson := by
  refine .object ?_
  simp only [List.forall_mem_cons]
  exact ⟨.text e.code, .text e.message, by simp⟩

theorem ofJson?_toJson (e : ErrorReport) : ofJson? e.toJson = some e := by
  have hread : form.read? e.toJson = some _ :=
    Json.RecordForm.read?_ofMembers (by decide) rfl
  simp only [ofJson?, hread]
  simp [Json.required]

end ErrorReport

namespace ErrorReports

theorem isTextual_toJson (e : ErrorReports) : IsTextual 3 e.toJson := by
  refine .object ?_
  simp only [List.forall_mem_cons]
  refine ⟨.array ?_, by simp⟩
  intro v hv
  obtain ⟨report, -, rfl⟩ := List.mem_map.1 hv
  exact report.isTextual_toJson

theorem ofJson?_toJson (e : ErrorReports) : ofJson? e.toJson = some e := by
  have hread : form.read? e.toJson = some _ :=
    Json.RecordForm.read?_ofMembers (by decide) rfl
  have herrors : Json.items? ErrorReport.ofJson? (.array (e.errors.map ErrorReport.toJson)) =
      some e.errors :=
    Json.readEach_map ErrorReport.ofJson?_toJson e.errors
  simp only [ofJson?, hread]
  simp [Json.required, herrors]

theorem ofJson?_eq_none (hmem : (name, v) ∈ members) (hother : name ∉ form.fields) :
    ofJson? (.ofMembers members) = none := by
  rw [ofJson?, Json.RecordForm.read?_eq_none rfl hmem hother]

end ErrorReports

namespace Message

theorem isTextual_toJson (m : Message) : IsTextual 3 m.toJson := by
  cases m with
  | request r => exact r.isTextual_toJson.mono (by decide)
  | result r => exact r.isTextual_toJson.mono (by decide)
  | errors e => exact e.isTextual_toJson
  | error e => exact e.isTextual_toJson.mono (by decide)

/-- A message is read as what it is: none of the shapes that are tried before fits. -/
theorem ofJson?_toJson (m : Message) : ofJson? m.toJson = some m := by
  cases m with
  | request r => simp [ofJson?, toJson, Request.ofJson?_toJson]
  | result r =>
      have hrequest : Request.ofJson? r.toJson = none :=
        Request.ofJson?_eq_none (.head _) (by decide)
      simp [ofJson?, toJson, hrequest, Result.ofJson?_toJson]
  | errors e =>
      have hrequest : Request.ofJson? e.toJson = none :=
        Request.ofJson?_eq_none (.head _) (by decide)
      have hresult : Result.ofJson? e.toJson = none :=
        Result.ofJson?_eq_none (.head _) (by decide)
      simp [ofJson?, toJson, hrequest, hresult, ErrorReports.ofJson?_toJson]
  | error e =>
      have hrequest : Request.ofJson? e.toJson = none :=
        Request.ofJson?_eq_none (.head _) (by decide)
      have hresult : Result.ofJson? e.toJson = none :=
        Result.ofJson?_eq_none (.head _) (by decide)
      have herrors : ErrorReports.ofJson? e.toJson = none :=
        ErrorReports.ofJson?_eq_none (.head _) (by decide)
      simp [ofJson?, toJson, hrequest, hresult, herrors, ErrorReport.ofJson?_toJson]

/-- Whatever message is encoded, parsing its bytes gives that message. -/
theorem parse_encode (m : Message) : parse m.encode = .ok m := by
  have htextual := m.isTextual_toJson
  have hread : Json.readValue m.encode = some (m.toJson, []) := by
    simpa [encode] using Json.readValue_write htextual.hasProperNumerals Json.endsNumeral_nil
  have hholdable : m.toJson.isHoldable = true := htextual.isHoldable (by decide)
  have hfinished : Json.isFinished [] = true := rfl
  simp only [parse, hread, hholdable, m.ofJson?_toJson, hfinished, Bool.not_true,
    Bool.false_eq_true, if_false, if_true]

end Message

end Wire
end GuardedStore
