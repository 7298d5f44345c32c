import GuardedStore.Proofs.RecordShapes

/-!
# MessageShapes — a message is known by its fields

A message has no tag, and one shape after the other is tried.  The order does not matter: a value
that fits the fields of one shape fits those of no other (`Shape.eq_of_fits`), neither as an object,
since the names differ, nor as an array, since the lengths differ or what stands first does.  What
fits is made of texts and so can be held, which makes the fields all that decides about an object
(`Message.exists_parse_iff`).
-/

namespace GuardedStore
namespace Wire

open Json (Field Fits HasFields IsText IsArrayOf IsTextObject IsTextual)

variable {v : Json} {m : Message} {bytes rest : List UInt8}

/-! ## Fields of the messages -/

namespace ErrorReport

def fields : List Field := [⟨"errorCode", IsText⟩, ⟨"message", IsText⟩]

theorem exists_ofJson?_iff : (∃ e, ofJson? v = some e) ↔ Fits fields v := by
  have hfits : (∃ values, form.read? v = some (values.map some) ∧
      List.Forall₂ Field.IsShaped fields values) ↔ Fits fields v :=
    Json.RecordForm.exists_read?_iff rfl (by decide) rfl
  rw [← hfits]
  constructor
  · rintro ⟨e, h⟩
    unfold ofJson? at h
    split at h
    · next code message hread =>
      simp only [Option.bind_eq_bind, Option.bind_eq_some_iff, Json.required_eq_some_iff] at h
      obtain ⟨c, ⟨w, rfl, hc⟩, t, ⟨w', rfl, ht⟩, -⟩ := h
      exact ⟨[w, w'], hread, .cons (Json.exists_text?_iff.1 ⟨c, hc⟩)
        (.cons (Json.exists_text?_iff.1 ⟨t, ht⟩) .nil)⟩
    · cases h
  · rintro ⟨values, hread, hshaped⟩
    simp only [fields, List.forall₂_cons_left_iff, List.forall₂_nil_left_iff] at hshaped
    obtain ⟨w, -, hw, ⟨w', -, hw', rfl, rfl⟩, rfl⟩ := hshaped
    obtain ⟨c, hc⟩ := Json.exists_text?_iff.2 hw
    obtain ⟨t, ht⟩ := Json.exists_text?_iff.2 hw'
    simp [ofJson?, hread, Json.required, hc, ht]

end ErrorReport

namespace Request

def fields : List Field :=
  [⟨"read", IsArrayOf IsText⟩, ⟨"update", IsTextObject⟩, ⟨"delete", IsArrayOf IsText⟩]

theorem exists_ofJson?_iff : (∃ r, ofJson? v = some r) ↔ Fits fields v := by
  have hfits : (∃ values, form.read? v = some (values.map some) ∧
      List.Forall₂ Field.IsShaped fields values) ↔ Fits fields v :=
    Json.RecordForm.exists_read?_iff rfl (by decide) rfl
  have htexts : ∀ {w}, (∃ texts, Json.texts? w = some texts) ↔ IsArrayOf IsText w :=
    Json.exists_items?_iff Json.exists_text?_iff
  rw [← hfits]
  constructor
  · rintro ⟨r, h⟩
    unfold ofJson? at h
    split at h
    · next read update delete hread =>
      simp only [Option.bind_eq_bind, Option.bind_eq_some_iff, Json.required_eq_some_iff] at h
      obtain ⟨rs, ⟨w, rfl, hrs⟩, us, ⟨w', rfl, hus⟩, ds, ⟨w'', rfl, hds⟩, -⟩ := h
      exact ⟨[w, w', w''], hread, .cons (htexts.1 ⟨rs, hrs⟩)
        (.cons (Json.exists_textMembers?_iff.1 ⟨us, hus⟩) (.cons (htexts.1 ⟨ds, hds⟩) .nil))⟩
    · cases h
  · rintro ⟨values, hread, hshaped⟩
    simp only [fields, List.forall₂_cons_left_iff, List.forall₂_nil_left_iff] at hshaped
    obtain ⟨w, -, hw, ⟨w', -, hw', ⟨w'', -, hw'', rfl, rfl⟩, rfl⟩, rfl⟩ := hshaped
    obtain ⟨rs, hrs⟩ := htexts.2 hw
    obtain ⟨us, hus⟩ := Json.exists_textMembers?_iff.2 hw'
    obtain ⟨ds, hds⟩ := htexts.2 hw''
    simp [ofJson?, hread, Json.required, hrs, hus, hds]

end Request

namespace Result

def fields : List Field := [⟨"values", IsTextObject⟩]

theorem exists_ofJson?_iff : (∃ r, ofJson? v = some r) ↔ Fits fields v := by
  have hfits : (∃ values, form.read? v = some (values.map some) ∧
      List.Forall₂ Field.IsShaped fields values) ↔ Fits fields v :=
    Json.RecordForm.exists_read?_iff rfl (by decide) rfl
  rw [← hfits]
  constructor
  · rintro ⟨r, h⟩
    unfold ofJson? at h
    split at h
    · next found hread =>
      simp only [Option.bind_eq_bind, Option.bind_eq_some_iff, Json.required_eq_some_iff] at h
      obtain ⟨vs, ⟨w, rfl, hvs⟩, -⟩ := h
      exact ⟨[w], hread, .cons (Json.exists_textMembers?_iff.1 ⟨vs, hvs⟩) .nil⟩
    · cases h
  · rintro ⟨values, hread, hshaped⟩
    simp only [fields, List.forall₂_cons_left_iff, List.forall₂_nil_left_iff] at hshaped
    obtain ⟨w, -, hw, rfl, rfl⟩ := hshaped
    obtain ⟨vs, hvs⟩ := Json.exists_textMembers?_iff.2 hw
    simp [ofJson?, hread, Json.required, hvs]

end Result

namespace ErrorReports

def fields : List Field := [⟨"errors", IsArrayOf (Fits ErrorReport.fields)⟩]

theorem exists_ofJson?_iff : (∃ e, ofJson? v = some e) ↔ Fits fields v := by
  have hfits : (∃ values, form.read? v = some (values.map some) ∧
      List.Forall₂ Field.IsShaped fields values) ↔ Fits fields v :=
    Json.RecordForm.exists_read?_iff rfl (by decide) rfl
  have hreports : ∀ {w}, (∃ es, Json.items? ErrorReport.ofJson? w = some es) ↔
      IsArrayOf (Fits ErrorReport.fields) w :=
    Json.exists_items?_iff ErrorReport.exists_ofJson?_iff
  rw [← hfits]
  constructor
  · rintro ⟨e, h⟩
    unfold ofJson? at h
    split at h
    · next found hread =>
      simp only [Option.bind_eq_bind, Option.bind_eq_some_iff, Json.required_eq_some_iff] at h
      obtain ⟨es, ⟨w, rfl, hes⟩, -⟩ := h
      exact ⟨[w], hread, .cons (hreports.1 ⟨es, hes⟩) .nil⟩
    · cases h
  · rintro ⟨values, hread, hshaped⟩
    simp only [fields, List.forall₂_cons_left_iff, List.forall₂_nil_left_iff] at hshaped
    obtain ⟨w, -, hw, rfl, rfl⟩ := hshaped
    obtain ⟨es, hes⟩ := hreports.2 hw
    simp [ofJson?, hread, Json.required, hes]

end ErrorReports

namespace Message

/-! ## Shapes of messages -/

inductive Shape where
  | request
  | result
  | errors
  | error
  deriving DecidableEq

namespace Shape

variable {s t : Shape}

/-- What tells a message of a shape from others. -/
def fields : Shape → List Field
  | request => Request.fields
  | result => Result.fields
  | errors => ErrorReports.fields
  | error => ErrorReport.fields

/-- The message of a shape that a value writes. -/
def read? (v : Json) : Shape → Option Message
  | request => (Request.ofJson? v).map .request
  | result => (Result.ofJson? v).map .result
  | errors => (ErrorReports.ofJson? v).map .errors
  | error => (ErrorReport.ofJson? v).map .error

theorem exists_read?_iff : (∃ m, s.read? v = some m) ↔ Fits s.fields v := by
  cases s with
  | request => simp [read?, fields, ← Request.exists_ofJson?_iff]
  | result => simp [read?, fields, ← Result.exists_ofJson?_iff]
  | errors => simp [read?, fields, ← ErrorReports.exists_ofJson?_iff]
  | error => simp [read?, fields, ← ErrorReport.exists_ofJson?_iff]

/-- No two shapes have fields of the same names. -/
theorem eq_of_names_perm (h : (s.fields.map Field.name).Perm (t.fields.map Field.name)) :
    s = t := by
  cases s <;> cases t <;> first | rfl | exact absurd h (by decide)

/-- The shapes with as many fields as each other are those of a result and of errors, and the one
field of the former is an object where that of the latter is an array. -/
theorem eq_of_forall₂ {items : List Json} (hs : List.Forall₂ Field.IsShaped s.fields items)
    (ht : List.Forall₂ Field.IsShaped t.fields items) : s = t := by
  have hlength : s.fields.length = t.fields.length := hs.length_eq.trans ht.length_eq.symm
  have hapart : ∀ {w P}, IsTextObject w → ¬ IsArrayOf P w := by
    rintro w P ⟨members, rfl⟩ ⟨items, hitems, -⟩
    cases hitems
  cases s with
  | result => cases t with
    | errors =>
        rcases hs with _ | ⟨hs, -⟩
        rcases ht with _ | ⟨ht, -⟩
        exact absurd ht (hapart hs)
    | result => rfl
    | _ => exact absurd hlength (by decide)
  | errors => cases t with
    | result =>
        rcases hs with _ | ⟨hs, -⟩
        rcases ht with _ | ⟨ht, -⟩
        exact absurd hs (hapart ht)
    | errors => rfl
    | _ => exact absurd hlength (by decide)
  | _ => cases t <;> first | rfl | exact absurd hlength (by decide)

/-- A value fits the fields of one shape at most. -/
theorem eq_of_fits (hs : Fits s.fields v) (ht : Fits t.fields v) : s = t := by
  cases hs with
  | object hs => cases ht with
    | object ht =>
        refine eq_of_names_perm ((List.map_perm_map_iff Json.textBytes_injective).1 ?_)
        rw [List.map_map, List.map_map]
        exact hs.names.symm.trans ht.names
  | array hs => cases ht with
    | array ht => exact eq_of_forall₂ hs ht

end Shape
end Message

/-! ## What fits can be held -/

theorem isTextual_of_isText {n : Nat} (h : IsText v) : IsTextual n v := by
  obtain ⟨s, rfl⟩ := h
  exact .text s

theorem isTextual_of_isArrayOf {n : Nat} {P : Json → Prop} (hitems : ∀ {i}, P i → IsTextual n i)
    (h : IsArrayOf P v) : IsTextual (n + 1) v := by
  obtain ⟨items, rfl, hP⟩ := h
  exact .array (fun i hi => hitems (hP i hi))

theorem isTextual_of_isTextObject (h : IsTextObject v) : IsTextual 1 v := by
  obtain ⟨members, rfl⟩ := h
  exact isTextual_textObject members

theorem isTextual_of_fits {n : Nat} {fields : List Field}
    (hfields : ∀ f ∈ fields, ∀ w, f.IsShaped w → IsTextual n w) (h : Fits fields v) :
    IsTextual (n + 1) v := by
  cases h with
  | object h =>
      obtain ⟨named, rfl⟩ := h.exists_named
      refine .object ?_
      intro m hm
      obtain ⟨f, hf, -, hshaped⟩ := h.exists_field (List.mem_map_of_mem hm)
      exact hfields f hf _ hshaped
  | array h =>
      refine .array ?_
      induction h with
      | nil => simp
      | cons hi _ ih =>
          rw [List.forall_mem_cons] at hfields
          exact List.forall_mem_cons.2 ⟨hfields.1 _ hi, ih hfields.2⟩

theorem ErrorReport.isTextual_of_fits (h : Fits fields v) : IsTextual 1 v := by
  refine Wire.isTextual_of_fits ?_ h
  simp only [fields, List.forall_mem_cons]
  exact ⟨fun _ => isTextual_of_isText, fun _ => isTextual_of_isText, by simp⟩

namespace Message

variable {s : Shape}

theorem Shape.isTextual_of_fits (h : Fits s.fields v) : IsTextual 3 v := by
  have hlist : ∀ w, IsArrayOf IsText w → IsTextual 1 w :=
    fun _ => isTextual_of_isArrayOf isTextual_of_isText
  cases s with
  | request =>
      have hdepth : IsTextual 2 v := by
        refine Wire.isTextual_of_fits ?_ h
        simp only [Shape.fields, Request.fields, List.forall_mem_cons]
        exact ⟨hlist, fun _ => isTextual_of_isTextObject, hlist, by simp⟩
      exact hdepth.mono (by decide)
  | result =>
      have hdepth : IsTextual 2 v := by
        refine Wire.isTextual_of_fits ?_ h
        simp only [Shape.fields, Result.fields, List.forall_mem_cons]
        exact ⟨fun _ => isTextual_of_isTextObject, by simp⟩
      exact hdepth.mono (by decide)
  | errors =>
      refine Wire.isTextual_of_fits ?_ h
      simp only [Shape.fields, ErrorReports.fields, List.forall_mem_cons]
      exact ⟨fun _ => isTextual_of_isArrayOf ErrorReport.isTextual_of_fits, by simp⟩
  | error => exact (ErrorReport.isTextual_of_fits h).mono (by decide)

/-! ## Reading in any order -/

/-- The message that bytes write, if shapes are tried in some order. -/
def parseIn (order : List Shape) (bytes : List UInt8) : Except StoreError Message :=
  match Json.readValue bytes with
  | none => .error (.badMessage .notJson)
  | some (v, rest) =>
    if !v.isHoldable then .error (.badMessage .notJson)
    else match order.findSome? (Shape.read? v) with
      | none => .error (.badMessage .noShape)
      | some m => if Json.isFinished rest then .ok m else .error (.badMessage .notJson)

theorem ofJson?_eq_findSome? (v : Json) : ofJson? v =
    [Shape.request, .result, .errors, .error].findSome? (Shape.read? v) := by
  simp only [ofJson?, List.findSome?, Shape.read?]
  cases Request.ofJson? v <;> cases Result.ofJson? v <;> cases ErrorReports.ofJson? v <;>
    cases ErrorReport.ofJson? v <;> rfl

/-- What is read does not depend on the order, as long as all shapes are tried. -/
theorem findSome?_eq_some_iff {order : List Shape} (hall : ∀ s, s ∈ order) :
    order.findSome? (Shape.read? v) = some m ↔ ∃ s, Shape.read? v s = some m := by
  constructor
  · intro h
    obtain ⟨s, -, hs⟩ := List.exists_of_findSome?_eq_some h
    exact ⟨s, hs⟩
  · rintro ⟨s, hs⟩
    cases hfound : order.findSome? (Shape.read? v) with
    | none =>
        rw [List.findSome?_eq_none_iff.1 hfound s (hall s)] at hs
        cases hs
    | some m' =>
        obtain ⟨t, -, ht⟩ := List.exists_of_findSome?_eq_some hfound
        obtain rfl : t = s :=
          Shape.eq_of_fits (Shape.exists_read?_iff.1 ⟨m', ht⟩) (Shape.exists_read?_iff.1 ⟨m, hs⟩)
        rw [← ht, hs]

theorem ofJson?_eq_some_iff : ofJson? v = some m ↔ ∃ s, Shape.read? v s = some m := by
  rw [ofJson?_eq_findSome?]
  exact findSome?_eq_some_iff (fun s => by cases s <;> decide)

theorem parseIn_eq_parse {order : List Shape} (hall : ∀ s, s ∈ order) (bytes : List UInt8) :
    parseIn order bytes = parse bytes := by
  have hread : ∀ v, order.findSome? (Shape.read? v) = ofJson? v := by
    intro v
    ext m
    rw [findSome?_eq_some_iff hall, ofJson?_eq_some_iff]
  unfold parseIn
  simp only [hread]
  rfl

/-- A value is a message if it fits the fields of a shape, and then it can be held. -/
theorem exists_ofJson?_iff : (∃ m, ofJson? v = some m) ↔ ∃ s : Shape, Fits s.fields v := by
  constructor
  · rintro ⟨m, h⟩
    obtain ⟨s, hs⟩ := ofJson?_eq_some_iff.1 h
    exact ⟨s, Shape.exists_read?_iff.1 ⟨m, hs⟩⟩
  · rintro ⟨s, h⟩
    obtain ⟨m, hm⟩ := Shape.exists_read?_iff.2 h
    exact ⟨m, ofJson?_eq_some_iff.2 ⟨s, hm⟩⟩

theorem exists_parse_iff (hread : Json.readAll bytes = some v) :
    (∃ m, parse bytes = .ok m) ↔ ∃ s : Shape, Fits s.fields v := by
  obtain ⟨rest, hvalue, hfinished⟩ := Json.readAll_eq_some_iff.1 hread
  rw [← exists_ofJson?_iff]
  constructor
  · rintro ⟨m, h⟩
    exact ⟨m, ofJson?_eq_of_parse hvalue h⟩
  · rintro ⟨m, hm⟩
    obtain ⟨s, hs⟩ := exists_ofJson?_iff.1 ⟨m, hm⟩
    have hholdable : v.isHoldable = true := (Shape.isTextual_of_fits hs).isHoldable (by decide)
    exact ⟨m, by simp [parse, hvalue, hholdable, hm, hfinished]⟩

/-- No value is a message of two shapes, so it does not matter in which order the shapes are tried;
and an object is a message exactly if its members are, each once, the fields of one shape, each with
a value of the shape of that field. -/
theorem unambiguous :
    (∀ v s t, (Shape.read? v s).isSome = true → (Shape.read? v t).isSome = true → s = t) ∧
    (∀ order bytes, (∀ s, s ∈ order) → parseIn order bytes = parse bytes) ∧
    ∀ bytes members, Json.readAll bytes = some (.object members) →
      ((∃ m, parse bytes = .ok m) ↔ ∃ s : Shape, HasFields s.fields members) := by
  refine ⟨?_, fun order bytes hall => parseIn_eq_parse hall bytes, ?_⟩
  · intro v s t hs ht
    exact Shape.eq_of_fits (Shape.exists_read?_iff.1 (Option.isSome_iff_exists.1 hs))
      (Shape.exists_read?_iff.1 (Option.isSome_iff_exists.1 ht))
  · intro bytes members hread
    rw [exists_parse_iff hread]
    refine exists_congr (fun s => ⟨?_, .object⟩)
    rintro ⟨h⟩
    exact h

/-- An error whose fields are not in their order. -/
def swappedError : Json :=
  .ofMembers [("message", .ofText "no such key"), ("errorCode", .ofText "not-found")]

theorem unambiguous_swapped :
    (∀ s, (Shape.read? swappedError s).isSome = true → s = .error) ∧
    parseIn [.error, .errors, .result, .request] (Json.write swappedError) =
      parse (Json.write swappedError) ∧
    ∃ m, parse (Json.write swappedError) = .ok m := by
  obtain ⟨honce, horder, haccepted⟩ := unambiguous
  have hfields : HasFields Shape.error.fields
      [(Json.textBytes "message", .ofText "no such key"),
        (Json.textBytes "errorCode", .ofText "not-found")] := by
    refine ⟨.swap _ _ _, ?_⟩
    simp [Shape.fields, ErrorReport.fields, IsText]
  have herror : (Shape.read? swappedError .error).isSome = true :=
    Option.isSome_iff_exists.2 (Shape.exists_read?_iff.2 (.object hfields))
  have hproper : swappedError.HasProperNumerals :=
    (Shape.isTextual_of_fits (s := .error) (.object hfields)).hasProperNumerals
  refine ⟨fun s hs => honce _ _ _ hs herror, horder _ _ ?_, ?_⟩
  · intro s
    cases s <;> decide
  · exact (haccepted _ _ (Json.readAll_write hproper)).2 ⟨.error, hfields⟩

end Message

end Wire
end GuardedStore
