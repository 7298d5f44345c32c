import GuardedStore.Proofs.WireMessages

/-!
# RecordShapes — from which values a closed record is read

A closed record is read from an object that has each field once and nothing else, in any order, or
from an array of the fields in their order.  `Fits` says so for fields that have a shape each, and
`RecordForm.exists_read?_iff` says that reading finds just these values.  The shapes of texts, of
arrays of one shape and of objects of texts are told apart from the readers of such values
(`exists_items?_iff`, `exists_textMembers?_iff`).
-/

namespace GuardedStore
namespace Json

variable {bytes : List UInt8} {s : String} {v : Json} {items : List Json}
  {members : List (List UInt8 × Json)} {named : List (String × Json)}

/-! ## Texts and names -/

/-- Bytes write at most one text. -/
theorem bytesText?_eq_some_iff : bytesText? bytes = some s ↔ bytes = textBytes s := by
  constructor
  · intro h
    unfold bytesText? String.fromUTF8? at h
    split at h
    · cases h
      simp [textBytes, String.fromUTF8, String.toUTF8]
    · cases h
  · rintro rfl
    exact bytesText?_textBytes s

theorem textBytes_injective : Function.Injective textBytes := by
  intro s t h
  have hs := bytesText?_textBytes s
  rw [h, bytesText?_textBytes] at hs
  exact (Option.some.inj hs).symm

theorem text?_eq_some_iff : text? v = some s ↔ v = ofText s := by
  cases v with
  | string bytes => simp [text?, ofText, bytesText?_eq_some_iff]
  | _ => simp [text?, ofText]

theorem namedMembers?_eq_some_iff : namedMembers? members = some named ↔
    members = named.map (fun m => (textBytes m.1, m.2)) := by
  constructor
  · intro h
    induction members generalizing named with
    | nil =>
        cases h
        rfl
    | cons m members ih =>
        obtain ⟨name, v⟩ := m
        rw [namedMembers?] at h
        split at h
        · next s rest hs hrest =>
          cases h
          rw [List.map_cons, ← ih hrest, bytesText?_eq_some_iff.1 hs]
        · cases h
  · rintro rfl
    exact namedMembers?_ofMembers named

/-! ## Shapes -/

def IsText (v : Json) : Prop := ∃ s, v = ofText s

def IsArrayOf (P : Json → Prop) (v : Json) : Prop := ∃ items, v = .array items ∧ ∀ i ∈ items, P i

def IsTextObject (v : Json) : Prop := ∃ members, v = Wire.textObject members

theorem exists_text?_iff : (∃ s, text? v = some s) ↔ IsText v := by
  simp only [text?_eq_some_iff, IsText]

theorem exists_readEach_iff {α β : Type} {read : α → Option β} {l : List α} :
    (∃ bs, readEach read l = some bs) ↔ ∀ a ∈ l, ∃ b, read a = some b := by
  induction l with
  | nil => simp [readEach]
  | cons a l ih =>
      rw [List.forall_mem_cons, ← ih, readEach]
      constructor
      · rintro ⟨bs, h⟩
        split at h
        · next b rest hb hrest => exact ⟨⟨b, hb⟩, rest, hrest⟩
        · cases h
      · rintro ⟨⟨b, hb⟩, rest, hrest⟩
        exact ⟨b :: rest, by rw [hb, hrest]⟩

/-- An array of values that can be read each is read. -/
theorem exists_items?_iff {α : Type} {read : Json → Option α} {P : Json → Prop}
    (hread : ∀ {i}, (∃ a, read i = some a) ↔ P i) :
    (∃ as, items? read v = some as) ↔ IsArrayOf P v := by
  cases v with
  | array items => simp [items?, IsArrayOf, exists_readEach_iff, hread]
  | _ => simp [items?, IsArrayOf]

theorem eq_map_of_readEach {α β : Type} {read : α → Option β} {write : β → α}
    (h : ∀ {a b}, read a = some b → a = write b) {l : List α} {bs : List β}
    (hread : readEach read l = some bs) : l = bs.map write := by
  induction l generalizing bs with
  | nil =>
      cases hread
      rfl
  | cons a l ih =>
      rw [readEach] at hread
      split at hread
      · next b rest hb hrest =>
        cases hread
        rw [List.map_cons, ← ih hrest, ← h hb]
      · cases hread

theorem exists_textMembers?_iff :
    (∃ texts, textMembers? v = some texts) ↔ IsTextObject v := by
  constructor
  · rintro ⟨texts, h⟩
    cases v with
    | object members =>
        refine ⟨texts, ?_⟩
        rw [Wire.textObject, ofMembers, List.map_map]
        refine congrArg Json.object (eq_map_of_readEach ?_ h)
        intro m entry hentry
        split at hentry
        · next hname htext =>
          cases hentry
          exact Prod.ext (bytesText?_eq_some_iff.1 hname) (text?_eq_some_iff.1 htext)
        · cases hentry
    | _ => cases h
  · rintro ⟨texts, rfl⟩
    exact ⟨texts, Wire.textMembers?_textObject texts⟩

/-- A field of a record: its name, and the values that it may have. -/
structure Field where
  name : String
  IsShaped : Json → Prop

variable {fields : List Field} {form : RecordForm}

/-- An object has each of some fields once, each with a value of its shape, and nothing else. -/
structure HasFields (fields : List Field) (members : List (List UInt8 × Json)) : Prop where
  names : (members.map (·.1)).Perm (fields.map (fun f => textBytes f.name))
  shaped : ∀ f ∈ fields, ∀ m ∈ members, m.1 = textBytes f.name → f.IsShaped m.2

/-- The values that a closed record with some fields may be written as. -/
inductive Fits (fields : List Field) : Json → Prop
  | object {members : List (List UInt8 × Json)} (h : HasFields fields members) :
      Fits fields (.object members)
  | array {items : List Json} (h : List.Forall₂ Field.IsShaped fields items) :
      Fits fields (.array items)

/-! ## Reading records -/

theorem member?_eq_some_iff {name : String} (hnodup : (named.map (·.1)).Nodup) :
    member? name named = some v ↔ (name, v) ∈ named := by
  refine ⟨?_, member?_of_nodup hnodup⟩
  intro h
  obtain ⟨m, hfind, rfl⟩ := Option.map_eq_some_iff.1 h
  have hname : m.1 = name := by simpa using List.find?_some hfind
  rw [← hname]
  exact List.mem_of_find?_eq_some hfind

theorem RecordForm.admits_iff (hclosed : form.isOpen = false) : form.admits named = true ↔
    (∀ m ∈ named, m.1 ∈ form.fields) ∧ (named.map (·.1)).Nodup := by
  rw [RecordForm.admits, hclosed, Bool.false_or, Bool.and_eq_true, List.all_eq_true,
    List.all_eq_true, List.nodup_iff_count_le_one]
  simp only [List.contains_iff_mem, decide_eq_true_eq, occurrences_eq_count]
  refine and_congr_right ?_
  intro hdeclared
  refine ⟨?_, fun h f _ => h f⟩
  intro h name
  by_cases hname : name ∈ form.fields
  · exact h name hname
  · -- a name that is not declared does not occur
    have habsent : name ∉ named.map (·.1) := by
      intro hmem
      obtain ⟨m, hm, rfl⟩ := List.mem_map.1 hmem
      exact hname (hdeclared m hm)
    rw [List.count_eq_zero.2 habsent]
    exact Nat.zero_le 1

/-- All of some things are found if each of them is. -/
theorem exists_values_iff {α β : Type} {find : α → Option β} {P : α → β → Prop} {l : List α} :
    (∃ values : List β, l.map find = values.map some ∧ List.Forall₂ P l values) ↔
      ∀ a ∈ l, ∃ b, find a = some b ∧ P a b := by
  induction l with
  | nil => simp
  | cons a l ih =>
      rw [List.forall_mem_cons, ← ih]
      constructor
      · rintro ⟨values, hfound, hshaped⟩
        cases hshaped with
        | cons hb hrest =>
            rw [List.map_cons, List.map_cons, List.cons.injEq] at hfound
            exact ⟨⟨_, hfound.1, hb⟩, _, hfound.2, hrest⟩
      · rintro ⟨⟨b, hfound, hb⟩, values, hrest, hshaped⟩
        exact ⟨b :: values, by rw [List.map_cons, hfound, hrest, List.map_cons], .cons hb hshaped⟩

/-- An object has some fields if its names are those of the fields, none of them twice, and what is
found under each has the right shape. -/
theorem hasFields_iff (hnodup : (fields.map Field.name).Nodup) :
    HasFields fields (named.map (fun m => (textBytes m.1, m.2))) ↔
      (∀ m ∈ named, m.1 ∈ fields.map Field.name) ∧ (named.map (·.1)).Nodup ∧
        ∀ f ∈ fields, ∃ w, member? f.name named = some w ∧ f.IsShaped w := by
  have hnames : ((named.map (fun m => (textBytes m.1, m.2))).map (·.1)).Perm
      (fields.map (fun f => textBytes f.name)) ↔
        (named.map (·.1)).Perm (fields.map Field.name) := by
    rw [← List.map_perm_map_iff textBytes_injective, List.map_map, List.map_map, List.map_map]
    rfl
  constructor
  · intro h
    have hperm := hnames.1 h.names
    have honce : (named.map (·.1)).Nodup := hperm.nodup_iff.2 hnodup
    refine ⟨fun m hm => hperm.mem_iff.1 (List.mem_map_of_mem hm), honce, ?_⟩
    intro f hf
    obtain ⟨m, hm, hname⟩ := List.mem_map.1 (hperm.mem_iff.2 (List.mem_map_of_mem hf))
    refine ⟨m.2, (member?_eq_some_iff honce).2 (hname ▸ hm), ?_⟩
    exact h.shaped f hf _ (List.mem_map_of_mem hm) (congrArg textBytes hname)
  · rintro ⟨hdeclared, honce, hfound⟩
    refine ⟨hnames.2 ((List.perm_ext_iff_of_nodup honce hnodup).2 ?_), ?_⟩
    · intro name
      constructor
      · intro hname
        obtain ⟨m, hm, rfl⟩ := List.mem_map.1 hname
        exact hdeclared m hm
      · intro hname
        obtain ⟨f, hf, rfl⟩ := List.mem_map.1 hname
        obtain ⟨w, hw, -⟩ := hfound f hf
        exact List.mem_map.2 ⟨_, (member?_eq_some_iff honce).1 hw, rfl⟩
    · intro f hf m hm hname
      obtain ⟨⟨name, w⟩, hnamed, rfl⟩ := List.mem_map.1 hm
      obtain rfl : name = f.name := textBytes_injective hname
      obtain ⟨w', hw, hshaped⟩ := hfound f hf
      rw [(member?_eq_some_iff honce).2 hnamed] at hw
      cases hw
      exact hshaped

theorem HasFields.exists_field (h : HasFields fields members) {m : List UInt8 × Json}
    (hm : m ∈ members) : ∃ f ∈ fields, m.1 = textBytes f.name ∧ f.IsShaped m.2 := by
  obtain ⟨f, hf, hname⟩ := List.mem_map.1 (h.names.mem_iff.1 (List.mem_map_of_mem hm))
  exact ⟨f, hf, hname.symm, h.shaped f hf m hm hname.symm⟩

theorem exists_named (htexts : ∀ m ∈ members, ∃ name, m.1 = textBytes name) :
    ∃ named : List (String × Json), members = named.map (fun m => (textBytes m.1, m.2)) := by
  induction members with
  | nil => exact ⟨[], rfl⟩
  | cons m members ih =>
      obtain ⟨⟨name, hname⟩, hrest⟩ := List.forall_mem_cons.1 htexts
      obtain ⟨named, rfl⟩ := ih hrest
      exact ⟨(name, m.2) :: named, by rw [List.map_cons, ← hname]⟩

theorem HasFields.exists_named (h : HasFields fields members) :
    ∃ named : List (String × Json), members = named.map (fun m => (textBytes m.1, m.2)) := by
  refine Json.exists_named ?_
  intro m hm
  obtain ⟨f, -, hname, -⟩ := h.exists_field hm
  exact ⟨f.name, hname⟩

theorem RecordForm.read?_array_eq_some_iff {values : List Json}
    (hlength : values.length = form.fields.length) :
    form.read? (.array items) = some (values.map some) ↔ items = values := by
  rw [RecordForm.read?]
  constructor
  · intro h
    split at h
    · have hread := Option.some.inj h
      have hfilled : form.fields.length - items.length = 0 := by
        by_contra hmissing
        have hnone : none ∈ values.map some := by
          rw [← hread]
          exact List.mem_append_right _ (List.mem_replicate.2 ⟨hmissing, rfl⟩)
        simp at hnone
      rw [hfilled, List.replicate_zero, List.append_nil] at hread
      exact (List.map_inj_right (fun _ _ => Option.some.inj)).1 hread
    · cases h
  · rintro rfl
    rw [if_pos hlength.le, hlength, Nat.sub_self, List.replicate_zero, List.append_nil]

/-- Reading finds a value of the right shape for each field in the values that fit the fields, and
in no others. -/
theorem RecordForm.exists_read?_iff (hclosed : form.isOpen = false)
    (hnodup : (fields.map Field.name).Nodup) (hfields : form.fields = fields.map Field.name) :
    (∃ values, form.read? v = some (values.map some) ∧
      List.Forall₂ Field.IsShaped fields values) ↔ Fits fields v := by
  constructor
  · rintro ⟨values, hread, hshaped⟩
    cases v with
    | array items =>
        have hlength : values.length = form.fields.length := by
          rw [hfields, List.length_map, hshaped.length_eq]
        rw [(RecordForm.read?_array_eq_some_iff hlength).1 hread]
        exact .array hshaped
    | object members =>
        rw [RecordForm.read?] at hread
        split at hread
        · cases hread
        · next named hnamed =>
          split at hread
          · next hadmits =>
            have hfound := exists_values_iff.1 ⟨values, by
              simpa only [hfields, List.map_map, Function.comp_def] using Option.some.inj hread,
              hshaped⟩
            rw [admits_iff hclosed, hfields] at hadmits
            rw [namedMembers?_eq_some_iff.1 hnamed]
            exact .object ((hasFields_iff hnodup).2 ⟨hadmits.1, hadmits.2, hfound⟩)
          · cases hread
    | _ => cases hread
  · intro hfits
    cases hfits with
    | array hshaped =>
        have hlength := hshaped.length_eq
        rw [← List.length_map (f := Field.name), ← hfields] at hlength
        exact ⟨_, (RecordForm.read?_array_eq_some_iff hlength.symm).2 rfl, hshaped⟩
    | object h =>
        obtain ⟨named, rfl⟩ := h.exists_named
        obtain ⟨hdeclared, honce, hfound⟩ := (hasFields_iff hnodup).1 h
        obtain ⟨values, hvalues, hshaped⟩ := exists_values_iff.2 hfound
        have hadmits : form.admits named = true := by
          rw [admits_iff hclosed, hfields]
          exact ⟨hdeclared, honce⟩
        refine ⟨values, ?_, hshaped⟩
        rw [← hvalues, RecordForm.read?, namedMembers?_ofMembers]
        simp only [hadmits, if_true, hfields, List.map_map, Function.comp_def]

end Json
end GuardedStore
