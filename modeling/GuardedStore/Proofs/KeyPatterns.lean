import GuardedStore.Proofs.CanonicalKeys
import Mathlib.Data.List.Destutter

/-!
# KeyPatterns — which texts spell a pattern, and which keys a pattern covers

A text is read as a pattern by collapsing its runs of slashes; a star is allowed as its last
character only.  What is collapsed is the text that the pattern is displayed as
(`Pattern.create_eq_ok_iff`), and so two texts spell the same pattern exactly if they differ in
repeated slashes only (`Pattern.eq_iff_collapse_eq`).

A slash at the end of a text stays in the pattern, as it must in front of a star.  But the text of
a key has no slash at its end, and an exact pattern covers the key whose text is its display
(`Pattern.covers_of_not_wildcard`).  So a pattern that is spelled with a slash at the end covers no
key at all, although its spelling also spells a key.
-/

namespace GuardedStore
namespace Key

variable {path : List Char} {raw other : String} {key : Key}

/-! ## Collapsing -/

/-- A path without those slashes that come right after a slash. -/
def withoutRepeats (path : List Char) : List Char :=
  path.destutter (fun c d => ¬ (c = '/' ∧ d = '/'))

theorem collapse_eq_withoutRepeats (path : List Char) : collapse path = withoutRepeats path := by
  fun_induction collapse path with
  | case1 => rfl
  | case2 => rfl
  | case3 c d rest hslashes ih =>
      rw [ih, withoutRepeats, withoutRepeats, List.destutter_cons_cons, if_neg (not_not.2 hslashes),
        hslashes.1, hslashes.2, List.destutter_cons']
  | case4 c d rest hslashes ih =>
      rw [ih, withoutRepeats, withoutRepeats, List.destutter_cons_cons, if_pos hslashes,
        List.destutter_cons']

@[simp] theorem getLast?_collapse (path : List Char) :
    (collapse path).getLast? = path.getLast? := by
  fun_induction collapse path with
  | case1 => rfl
  | case2 => rfl
  | case3 c d rest hslashes ih => rw [ih, List.getLast?_cons_cons]
  | case4 c d rest hslashes ih =>
      rw [List.getLast?_cons, ih, ← List.getLast?_cons]

/-- What comes after a run of slashes does not join it. -/
theorem collapse_concat {c : Char} (hc : c ≠ '/') (path : List Char) :
    collapse (path ++ [c]) = collapse path ++ [c] := by
  fun_induction collapse path with
  | case1 => rfl
  | case2 d => simp [collapse, hc]
  | case3 d e rest hslashes ih =>
      rw [← ih, List.cons_append, List.cons_append, collapse, if_pos hslashes]
  | case4 d e rest hslashes ih =>
      rw [List.cons_append, List.cons_append, collapse, if_neg hslashes, ← List.cons_append, ih,
        List.cons_append]

/-- A star stands before the last character of a path or nowhere there, collapsed or not. -/
theorem star_mem_dropLast_collapse (path : List Char) :
    '*' ∈ (collapse path).dropLast ↔ '*' ∈ path.dropLast := by
  rcases List.eq_nil_or_concat path with rfl | ⟨front, c, rfl⟩
  · rfl
  · rw [List.concat_eq_append]
    by_cases hc : c = '/'
    · -- neither the slash nor what is left of its run is a star
      subst hc
      have hlast : (collapse (front ++ ['/'])).getLast? = some '/' := by simp
      obtain ⟨kept, hkept⟩ := List.getLast?_eq_some_iff.1 hlast
      have hmem : '*' ∈ collapse (front ++ ['/']) ↔ '*' ∈ front ++ ['/'] := mem_collapse
      rw [hkept] at hmem ⊢
      simpa using hmem
    · rw [collapse_concat hc, List.dropLast_concat, List.dropLast_concat, mem_collapse]

namespace Pattern

variable {p q : Pattern}

/-! ## Spellings of patterns -/

theorem toList_display (p : Pattern) :
    p.display.toList = p.stem.toList ++ if p.wildcard then ['*'] else [] := by
  unfold display
  split <;> simp [*]

/-- The pattern that is displayed as a path, if the path is the display of one. -/
def ofPath (path : List Char) : Pattern :=
  ⟨String.ofList (if path.getLast? == some '*' then path.dropLast else path),
    path.getLast? == some '*'⟩

theorem toList_display_ofPath (path : List Char) : (ofPath path).display.toList = path := by
  rw [toList_display, ofPath, String.toList_ofList]
  cases hlast : path.getLast? == some '*' with
  | true =>
      obtain ⟨front, rfl⟩ := List.getLast?_eq_some_iff.1 (eq_of_beq hlast)
      simp
  | false => simp

theorem wildcard_ofPath : (ofPath path).wildcard = true ↔ path.getLast? = some '*' := by
  simp [ofPath]

theorem star_mem_stem_ofPath (path : List Char) :
    '*' ∈ (ofPath path).stem.toList ↔ '*' ∈ path.dropLast := by
  rw [ofPath, String.toList_ofList]
  rcases List.eq_nil_or_concat path with rfl | ⟨front, c, rfl⟩
  · rfl
  · by_cases hc : c = '*'
    · simp [hc]
    · have hstar : '*' ≠ c := Ne.symm hc
      simp [hc, hstar]

/-- A text that spells a pattern has a star at its end or none, and the pattern is displayed as
what is left when its runs of slashes are collapsed. -/
theorem create_eq_ok_iff : create raw = .ok p ↔
    raw.toList.head? = some '/' ∧ collapse raw.toList ≠ ['/'] ∧ '*' ∉ raw.toList.dropLast ∧
      p = ofPath (collapse raw.toList) := by
  have hread : ∀ {a : AbsolutePath}, AbsolutePath.create raw.toList = .ok a →
      create raw = if '*' ∈ (ofPath a.text).stem.toList then .error .misplacedWildcard
        else .ok (ofPath a.text) := by
    intro a hpath
    simp only [create, hpath, ofPath, String.toList_ofList]
  rw [← star_mem_dropLast_collapse, ← star_mem_stem_ofPath]
  constructor
  · intro h
    cases hpath : AbsolutePath.create raw.toList with
    | error fault => simp [create, hpath] at h
    | ok a =>
        obtain ⟨habsolute, hroot, htext⟩ := AbsolutePath.create_eq_ok_iff.1 hpath
        rw [hread hpath, htext] at h
        split at h
        · cases h
        · next hstar =>
          cases h
          exact ⟨habsolute, hroot, hstar, rfl⟩
  · rintro ⟨habsolute, hroot, hstar, rfl⟩
    obtain ⟨a, hpath, htext⟩ := AbsolutePath.exists_create habsolute hroot
    rw [hread hpath, htext, if_neg hstar]

/-- A text spells a pattern if it starts with a slash, has something else in it, and has no star
before its last character. -/
theorem exists_create_iff : (∃ p, create raw = .ok p) ↔
    raw.toList.head? = some '/' ∧ (∃ c ∈ raw.toList, c ≠ '/') ∧ '*' ∉ raw.toList.dropLast := by
  constructor
  · rintro ⟨p, h⟩
    obtain ⟨habsolute, hroot, hstar, -⟩ := create_eq_ok_iff.1 h
    exact ⟨habsolute, (collapse_ne_root_iff habsolute).1 hroot, hstar⟩
  · rintro ⟨habsolute, hother, hstar⟩
    exact ⟨_, create_eq_ok_iff.2
      ⟨habsolute, (collapse_ne_root_iff habsolute).2 hother, hstar, rfl⟩⟩

theorem toList_display_of_create (h : create raw = .ok p) :
    p.display.toList = collapse raw.toList := by
  rw [(create_eq_ok_iff.1 h).2.2.2, toList_display_ofPath]

/-- The text that a pattern is displayed as spells it. -/
theorem create_display (h : create raw = .ok p) : create p.display = .ok p := by
  obtain ⟨habsolute, hroot, hstar, hp⟩ := create_eq_ok_iff.1 h
  have hcollapsed : collapse (collapse raw.toList) = collapse raw.toList :=
    collapse_of_single (single_collapse _)
  rw [create_eq_ok_iff, toList_display_of_create h, hcollapsed, head?_collapse,
    star_mem_dropLast_collapse]
  exact ⟨habsolute, hroot, hstar, hp⟩

/-- The form of a pattern in JSON is read back as the pattern. -/
theorem read_written_of_create (h : create raw = .ok p) :
    (Json.readAll (Json.write p.toJson)).bind ofJson? = some p := by
  have hproper : p.toJson.HasProperNumerals := trivial
  rw [Json.readAll_write hproper]
  simp [ofJson?, toJson, create_display h, Except.toOption]

theorem eq_iff_collapse_eq (h : create raw = .ok p) (hother : create other = .ok q) :
    p = q ↔ collapse raw.toList = collapse other.toList := by
  constructor
  · rintro rfl
    rw [← toList_display_of_create h, ← toList_display_of_create hother]
  · intro hcollapse
    rw [(create_eq_ok_iff.1 h).2.2.2, (create_eq_ok_iff.1 hother).2.2.2, hcollapse]

theorem wildcard_of_create (h : create raw = .ok p) :
    p.wildcard = true ↔ raw.toList.getLast? = some '*' := by
  rw [(create_eq_ok_iff.1 h).2.2.2, wildcard_ofPath, getLast?_collapse]

/-! ## Keys that a pattern covers -/

/-- The stem of a pattern with a wildcard is what stands before the star, collapsed. -/
theorem stem_of_wildcard (h : create raw = .ok p) (hwildcard : p.wildcard = true) :
    p.stem.toList = collapse raw.toList.dropLast := by
  obtain ⟨front, hfront⟩ := List.getLast?_eq_some_iff.1 ((wildcard_of_create h).1 hwildcard)
  have hdisplay := toList_display_of_create h
  rw [toList_display, if_pos hwildcard, hfront, collapse_concat (by decide)] at hdisplay
  rw [hfront, List.dropLast_concat]
  exact List.append_cancel_right hdisplay

theorem covers_of_wildcard (hwildcard : p.wildcard = true) (key : Key) :
    p.covers key = true ↔ p.stem.toList <+: key.text.toList := by
  rw [covers, if_pos hwildcard, List.isPrefixOf_iff_prefix]

/-- An exact pattern covers the key whose text is its display. -/
theorem covers_of_not_wildcard (hexact : ¬ p.wildcard = true) (key : Key) :
    p.covers key = true ↔ key.text.toList = p.display.toList := by
  rw [covers, if_neg hexact, display, if_neg hexact, beq_iff_eq, String.toList_inj]

/-- A text spells a pattern exactly if it starts with a slash, has something else in it and has no
star before its last character.  The pattern is also what it is displayed as and what it is written
as in JSON; another text spells the same pattern exactly if it differs in repeated slashes only.  A
star at the end is a wildcard, and then the pattern covers the keys whose texts start with what
stands before the star, apart from repeated slashes. -/
theorem faithful_of_create (raw : String) :
    ((∃ p, create raw = .ok p) ↔
      raw.toList.head? = some '/' ∧ (∃ c ∈ raw.toList, c ≠ '/') ∧ '*' ∉ raw.toList.dropLast) ∧
    ∀ p, create raw = .ok p →
      create p.display = .ok p ∧
      (Json.readAll (Json.write p.toJson)).bind ofJson? = some p ∧
      (∀ other q, create other = .ok q →
        (p = q ↔ withoutRepeats raw.toList = withoutRepeats other.toList)) ∧
      (p.wildcard = true ↔ raw.toList.getLast? = some '*') ∧
      (p.wildcard = true → ∀ spelling key, Key.create spelling = .ok key →
        (p.covers key = true ↔ withoutRepeats raw.toList.dropLast <+: key.text.toList)) := by
  refine ⟨exists_create_iff, ?_⟩
  intro p h
  refine ⟨create_display h, read_written_of_create h, ?_, wildcard_of_create h, ?_⟩
  · intro other q hother
    rw [eq_iff_collapse_eq h hother, collapse_eq_withoutRepeats, collapse_eq_withoutRepeats]
  · intro hwildcard spelling key _
    rw [covers_of_wildcard hwildcard, stem_of_wildcard h hwildcard, collapse_eq_withoutRepeats]

/-- A pattern that is spelled with slashes too many covers what it covers without them. -/
theorem faithful_of_create_repeated :
    ∃ p key, create "//a//*" = .ok p ∧ create "/a/*" = .ok p ∧ Key.create "/a//b/" = .ok key ∧
      p.covers key = true := by
  obtain ⟨haccepted, hspells⟩ := faithful_of_create "//a//*"
  obtain ⟨p, hp⟩ := haccepted.2 ⟨by decide, ⟨'a', by decide, by decide⟩, by decide⟩
  obtain ⟨q, hq⟩ := (faithful_of_create "/a/*").1.2
    ⟨by decide, ⟨'a', by decide, by decide⟩, by decide⟩
  have hkeyed : ∃ key, Key.create "/a//b/" = .ok key :=
    Key.exists_create_iff.2 ⟨by decide, 'a', by decide, by decide⟩
  obtain ⟨key, hkey⟩ := hkeyed
  obtain ⟨-, -, hsame, hwildcard, hcovers⟩ := hspells p hp
  have hpq : p = q := (hsame _ _ hq).2 (by decide)
  have htext : key.text.toList = spelling [['a'], ['b']] := by
    rw [toList_of_create hkey]
    decide
  refine ⟨p, key, hp, hpq ▸ hq, hkey, ?_⟩
  rw [hcovers (hwildcard.2 (by decide)) _ _ hkey, htext]
  decide

/-- Without a star, what a text spells as a pattern covers what it spells as a key, and nothing
else; but if there is a slash at the end of the text, the pattern covers nothing. -/
theorem covers_of_spelling (raw : String) (key : Key) (h : Key.create raw = .ok key)
    (hstar : '*' ∉ raw.toList) :
    ∃ p, create raw = .ok p ∧
      ∀ k, p.covers k = true ↔ raw.toList.getLast? ≠ some '/' ∧ k = key := by
  obtain ⟨habsolute, hroot, htext⟩ := Key.create_eq_ok_iff.1 h
  have hfree : '*' ∉ raw.toList.dropLast := fun hmem => hstar (List.dropLast_subset _ hmem)
  refine ⟨ofPath (collapse raw.toList), create_eq_ok_iff.2 ⟨habsolute, hroot, hfree, rfl⟩, ?_⟩
  intro k
  have hexact : ¬ (ofPath (collapse raw.toList)).wildcard = true := by
    rw [wildcard_ofPath, getLast?_collapse]
    exact fun hlast => hstar (List.mem_of_getLast? hlast)
  rw [covers_of_not_wildcard hexact, toList_display_ofPath]
  by_cases hslash : raw.toList.getLast? = some '/'
  · -- the text of a key does not end like this
    have hlast : (collapse raw.toList).getLast? = some '/' := by rwa [getLast?_collapse]
    simp only [hslash, ne_eq, not_true_eq_false, false_and, iff_false]
    intro hk
    rw [← hk] at hlast
    exact k.canonical.unfinished hlast
  · have hunfinished : (collapse raw.toList).getLast? ≠ some '/' := by rwa [getLast?_collapse]
    rw [withoutTrailing_of_unfinished hunfinished] at htext
    rw [← htext, String.toList_inj]
    exact ⟨fun hk => ⟨hslash, ext hk⟩, fun hk => by rw [hk.2]⟩

/-- Repeated slashes do not keep an exact pattern from covering the key that it spells. -/
theorem covers_of_spelling_repeated : ∃ key p, Key.create "//a//b" = .ok key ∧
    create "//a//b" = .ok p ∧ ∀ k, p.covers k = true ↔ k = key := by
  have hkeyed : ∃ key, Key.create "//a//b" = .ok key :=
    Key.exists_create_iff.2 ⟨by decide, 'a', by decide, by decide⟩
  obtain ⟨key, hkey⟩ := hkeyed
  obtain ⟨p, hp, hcovers⟩ := covers_of_spelling "//a//b" key hkey (by decide)
  refine ⟨key, p, hkey, hp, ?_⟩
  intro k
  rw [hcovers]
  exact and_iff_right (by decide)

/-- A slash at the end does. -/
theorem exists_uncovered : '*' ∉ "/a/".toList ∧
    ∃ key p, Key.create "/a/" = .ok key ∧ create "/a/" = .ok p ∧ p.covers key = false := by
  exact ⟨by decide, _, _, rfl, rfl, rfl⟩

end Pattern
end Key
end GuardedStore
