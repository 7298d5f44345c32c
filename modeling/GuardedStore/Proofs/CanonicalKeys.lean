import GuardedStore.Config.Entry
import GuardedStore.Proofs.JsonText
import Mathlib.Data.List.TakeWhile

/-!
# CanonicalKeys — which texts spell a key, and which key they spell

A text is read as a key by collapsing its runs of slashes and cutting off the one at its end.
Neither changes the parts between the slashes (`segments_append_collapse`,
`segments_withoutTrailing`), and a canonical path is made of nothing but its parts, each behind one
slash (`spelling_segments`).  So the text of a key says which parts the texts that spell it have,
and two texts spell the same key exactly if they have the same parts (`eq_iff_segments_eq`).
-/

namespace GuardedStore
namespace Key

variable {path slashes part : List Char} {raw other : String} {key key' : Key}

/-! ## Parts of a path -/

/-- The path that has the given parts, each behind a slash. -/
def spelling (parts : List (List Char)) : List Char := parts.flatMap ('/' :: ·)

theorem segments_append_slash (front rest : List Char) :
    segments (front ++ '/' :: rest) = segments front ++ segments rest := by
  rw [segments, List.splitOn_append_cons_self, List.filter_append]
  rfl

@[simp] theorem segments_nil : segments [] = [] := by
  simp [segments]

@[simp] theorem segments_slash (rest : List Char) : segments ('/' :: rest) = segments rest := by
  simpa using segments_append_slash [] rest

/-- What has no slash in it is a part. -/
theorem segments_of_not_mem (hfree : '/' ∉ part) (hne : part ≠ []) : segments part = [part] := by
  simp [segments, List.splitOn_eq_singleton hfree, hne]

/-- Collapsing runs of slashes keeps the parts, whatever stands in front. -/
theorem segments_append_collapse (front path : List Char) :
    segments (front ++ collapse path) = segments (front ++ path) := by
  fun_induction collapse path generalizing front with
  | case1 => rfl
  | case2 c => rfl
  | case3 c d rest hslashes ih =>
      rcases hslashes with ⟨rfl, rfl⟩
      rw [ih, segments_append_slash, segments_append_slash, segments_slash]
  | case4 c d rest hslashes ih =>
      -- the character belongs to what stands in front of the others
      simpa using ih (front ++ [c])

theorem segments_append_slashes (hall : ∀ c ∈ slashes, c = '/') (front : List Char) :
    segments (front ++ slashes) = segments front := by
  induction slashes generalizing front with
  | nil => rw [List.append_nil]
  | cons c slashes ih =>
      rw [List.forall_mem_cons] at hall
      have hrest := ih hall.2 []
      rw [List.nil_append] at hrest
      rw [hall.1, segments_append_slash, hrest, segments_nil, List.append_nil]

theorem exists_eq_withoutTrailing_append (path : List Char) :
    ∃ slashes, (∀ c ∈ slashes, c = '/') ∧ path = withoutTrailing path ++ slashes := by
  refine ⟨(path.reverse.takeWhile (· == '/')).reverse, ?_, ?_⟩
  · intro c hc
    simpa using List.mem_takeWhile_imp (List.mem_reverse.1 hc)
  · rw [withoutTrailing, ← List.reverse_append, List.takeWhile_append_dropWhile,
      List.reverse_reverse]

/-- The slashes at the end of a path do not separate anything. -/
theorem segments_withoutTrailing (path : List Char) :
    segments (withoutTrailing path) = segments path := by
  rcases exists_eq_withoutTrailing_append path with ⟨slashes, hall, hpath⟩
  conv => rhs; rw [hpath]
  exact (segments_append_slashes hall _).symm

/-- A path that starts with a part is that part and what comes from the next slash on. -/
theorem segments_eq_cons (hne : path ≠ []) (hpart : path.head? ≠ some '/') :
    segments path = path.takeWhile (· != '/') :: segments (path.dropWhile (· != '/')) := by
  have hsplit := List.takeWhile_append_dropWhile (p := (· != '/')) (l := path)
  have hfree : '/' ∉ path.takeWhile (· != '/') := by
    intro hmem
    simpa using List.mem_takeWhile_imp hmem
  have hsome : path.takeWhile (· != '/') ≠ [] := by
    cases path with
    | nil => exact absurd rfl hne
    | cons c rest =>
        have hc : (c != '/') = true := by simpa using hpart
        simp [hc]
  conv => lhs; rw [← hsplit]
  cases htail : path.dropWhile (· != '/') with
  | nil => rw [List.append_nil, segments_of_not_mem hfree hsome, segments_nil]
  | cons c rest =>
      obtain rfl : c = '/' := by
        have hhead := List.head?_dropWhile_not (· != '/') path
        simpa [htail] using hhead
      rw [segments_append_slash, segments_of_not_mem hfree hsome, segments_slash]
      rfl

/-! ## Canonical paths -/

/-- In a path without slashes side by side or at the end, each part but a first one that has no
slash in front stands behind one slash. -/
theorem eq_takeWhile_append_spelling (hfinished : path.getLast? ≠ some '/')
    (hsingle : ¬ ['/', '/'] <:+: path) :
    path = path.takeWhile (· != '/') ++ spelling (segments (path.dropWhile (· != '/'))) := by
  induction path with
  | nil => rfl
  | cons c rest ih =>
      have hlast : rest.getLast? ≠ some '/' := by
        intro h
        rw [List.getLast?_cons, h] at hfinished
        exact hfinished rfl
      have hrest := ih hlast (fun h => hsingle (List.infix_cons h))
      by_cases hc : c = '/'
      · subst hc
        -- a part comes next
        have hne : rest ≠ [] := by
          rintro rfl
          exact hfinished rfl
        have hpart : rest.head? ≠ some '/' := by
          intro h
          obtain ⟨tail, rfl⟩ := List.head?_eq_some_iff.1 h
          exact hsingle ⟨[], tail, rfl⟩
        have hspelling : spelling (segments rest) = '/' :: rest := by
          rw [segments_eq_cons hne hpart, spelling, List.flatMap_cons, List.cons_append]
          exact congrArg _ hrest.symm
        simp [hspelling]
      · simpa [hc] using hrest

/-- A canonical path is made of its parts. -/
theorem spelling_segments (h : IsCanonicalPath path) : spelling (segments path) = path := by
  have hpath := eq_takeWhile_append_spelling h.unfinished h.single
  obtain ⟨rest, rfl⟩ := List.head?_eq_some_iff.1 h.absolute
  simpa using hpath.symm

theorem collapse_of_single (h : ¬ ['/', '/'] <:+: path) :
    collapse path = path := by
  fun_induction collapse path with
  | case1 => rfl
  | case2 c => rfl
  | case3 c d rest hslashes ih =>
      rcases hslashes with ⟨rfl, rfl⟩
      exact absurd ⟨[], rest, rfl⟩ h
  | case4 c d rest hslashes ih =>
      have hrest : ¬ ['/', '/'] <:+: d :: rest := fun hin => h (List.infix_cons hin)
      rw [ih hrest]

theorem withoutTrailing_of_unfinished (h : path.getLast? ≠ some '/') :
    withoutTrailing path = path := by
  have hhead : path.reverse.head? ≠ some '/' := by rwa [List.head?_reverse]
  have hkept : path.reverse.dropWhile (· == '/') = path.reverse := by
    cases hreverse : path.reverse with
    | nil => rfl
    | cons c rest =>
        rw [hreverse] at hhead
        simp_all
  rw [withoutTrailing, hkept, List.reverse_reverse]

/-! ## Keys -/

theorem mem_collapse {c : Char} : c ∈ collapse path ↔ c ∈ path := by
  fun_induction collapse path with
  | case1 => rfl
  | case2 => rfl
  | case3 d e rest hslashes ih =>
      rw [ih, List.mem_cons (b := d), hslashes.1, hslashes.2]
      simp
  | case4 d e rest hslashes ih => rw [List.mem_cons, ih, List.mem_cons (b := d)]

theorem collapse_eq_root_iff (habsolute : path.head? = some '/') :
    collapse path = ['/'] ↔ ∀ c ∈ path, c = '/' := by
  constructor
  · intro hroot c hc
    rw [← mem_collapse, hroot] at hc
    simpa using hc
  · intro hall
    refine eq_root_of_all ?_ (single_collapse path) ?_
    · rwa [head?_collapse]
    · intro c hc
      exact hall c (mem_collapse.1 hc)

theorem collapse_ne_root_iff (habsolute : path.head? = some '/') :
    collapse path ≠ ['/'] ↔ ∃ c ∈ path, c ≠ '/' := by
  rw [ne_eq, collapse_eq_root_iff habsolute]
  simp

theorem AbsolutePath.create_eq_ok_iff {a : AbsolutePath} : AbsolutePath.create path = .ok a ↔
    path.head? = some '/' ∧ collapse path ≠ ['/'] ∧ a.text = collapse path := by
  unfold AbsolutePath.create
  by_cases habsolute : path.head? = some '/'
  · have hne : path ≠ [] := by
      rintro rfl
      cases habsolute
    have hcollapsed : (collapse path).head? = some '/' := by rwa [head?_collapse]
    by_cases hroot : collapse path = ['/']
    · simp [hne, hroot]
    · rw [if_neg hne, dif_pos hcollapsed, dif_pos hroot, Except.ok.injEq]
      constructor
      · rintro rfl
        exact ⟨habsolute, hroot, rfl⟩
      · rintro ⟨-, -, htext⟩
        cases a
        cases htext
        rfl
  · split <;> simp [habsolute]

theorem AbsolutePath.exists_create (habsolute : path.head? = some '/')
    (hroot : collapse path ≠ ['/']) :
    ∃ a, AbsolutePath.create path = .ok a ∧ a.text = collapse path := by
  have hcollapsed : (collapse path).head? = some '/' := by rwa [head?_collapse]
  refine ⟨⟨collapse path, hcollapsed, single_collapse path, hroot⟩, ?_, rfl⟩
  exact create_eq_ok_iff.2 ⟨habsolute, hroot, rfl⟩

/-- What is left of a text that starts with a slash and is not the root is the key. -/
theorem create_eq_ok_iff : create raw = .ok key ↔
    raw.toList.head? = some '/' ∧ collapse raw.toList ≠ ['/'] ∧
      key.text.toList = withoutTrailing (collapse raw.toList) := by
  constructor
  · intro h
    cases hpath : AbsolutePath.create raw.toList with
    | error fault => simp [create, hpath, Except.map] at h
    | ok a =>
        obtain ⟨habsolute, hroot, htext⟩ := AbsolutePath.create_eq_ok_iff.1 hpath
        rw [create, hpath, Except.map, Except.ok.injEq] at h
        refine ⟨habsolute, hroot, ?_⟩
        rw [← h, ← htext]
        exact String.toList_ofList
  · rintro ⟨habsolute, hroot, htext⟩
    obtain ⟨a, hpath, ha⟩ := AbsolutePath.exists_create habsolute hroot
    rw [← ha] at htext
    rw [create, hpath, Except.map, Except.ok.injEq]
    exact ext (String.toList_injective (String.toList_ofList.trans htext.symm))

/-- A text spells a key if it starts with a slash and has something else in it. -/
theorem exists_create_iff : (∃ key, create raw = .ok key) ↔
    raw.toList.head? = some '/' ∧ ∃ c ∈ raw.toList, c ≠ '/' := by
  constructor
  · rintro ⟨key, h⟩
    obtain ⟨habsolute, hroot, -⟩ := create_eq_ok_iff.1 h
    exact ⟨habsolute, (collapse_ne_root_iff habsolute).1 hroot⟩
  · rintro ⟨habsolute, hother⟩
    obtain ⟨a, hpath, -⟩ :=
      AbsolutePath.exists_create habsolute ((collapse_ne_root_iff habsolute).2 hother)
    exact ⟨ofPath a, by rw [create, hpath, Except.map]⟩

/-- The text of a key spells the key. -/
theorem create_text (k : Key) : create k.text = .ok k := by
  have hcollapse := collapse_of_single k.canonical.single
  have hroot : k.text.toList ≠ ['/'] := by
    intro hslash
    have hunfinished := k.canonical.unfinished
    rw [hslash] at hunfinished
    exact hunfinished rfl
  refine create_eq_ok_iff.2 ⟨k.canonical.absolute, ?_, ?_⟩
  · rwa [hcollapse]
  · rw [hcollapse, withoutTrailing_of_unfinished k.canonical.unfinished]

theorem segments_of_create (h : create raw = .ok key) :
    segments key.text.toList = segments raw.toList := by
  have hcollapse := segments_append_collapse [] raw.toList
  rw [(create_eq_ok_iff.1 h).2.2, segments_withoutTrailing]
  simpa using hcollapse

theorem toList_of_create (h : create raw = .ok key) :
    key.text.toList = spelling (segments raw.toList) := by
  rw [← segments_of_create h, spelling_segments key.canonical]

theorem eq_iff_segments_eq (h : create raw = .ok key) (hother : create other = .ok key') :
    key = key' ↔ segments raw.toList = segments other.toList := by
  constructor
  · rintro rfl
    rw [← segments_of_create h, segments_of_create hother]
  · intro hsegments
    refine ext (String.toList_injective ?_)
    rw [toList_of_create h, toList_of_create hother, hsegments]

/-- The form of a key in JSON is read back as the key. -/
theorem read_written (key : Key) :
    (Json.readAll (Json.write key.toJson)).bind ofJson? = some key := by
  have hproper : key.toJson.HasProperNumerals := trivial
  rw [Json.readAll_write hproper]
  simp [ofJson?, toJson, create_text, Except.toOption]

/-- A text spells a key exactly if it starts with a slash and has something else in it.  The key has
the parts of the text, each behind one slash; its own text spells it as well, and so do those texts
that have the same parts.  A key that is written in JSON is read back. -/
theorem canonical_of_create (raw : String) :
    ((∃ key, create raw = .ok key) ↔
      raw.toList.head? = some '/' ∧ ∃ c ∈ raw.toList, c ≠ '/') ∧
    (∀ key, create raw = .ok key →
      key.text.toList = spelling (segments raw.toList) ∧ IsCanonicalPath key.text.toList ∧
        create key.text = .ok key ∧
        ∀ other key', create other = .ok key' →
          (key = key' ↔ segments raw.toList = segments other.toList)) ∧
    ∀ key : Key, (Json.readAll (Json.write key.toJson)).bind ofJson? = some key := by
  refine ⟨exists_create_iff, ?_, read_written⟩
  intro key h
  exact ⟨toList_of_create h, key.canonical, create_text key, fun _ _ => eq_iff_segments_eq h⟩

/-- A path that is spelled with slashes too many has the key of the one that has none. -/
theorem canonical_of_create_repeated :
    ∃ key, create "//a//b/" = .ok key ∧ key.text.toList = spelling [['a'], ['b']] ∧
      ∀ key', create "/a/b" = .ok key' → key = key' := by
  rcases canonical_of_create "//a//b/" with ⟨haccepted, hspells, -⟩
  obtain ⟨key, hkey⟩ := haccepted.2 ⟨by decide, 'a', by decide, by decide⟩
  rcases hspells key hkey with ⟨htext, -, -, hsame⟩
  have hparts : segments "//a//b/".toList = [['a'], ['b']] := by decide
  refine ⟨key, hkey, by rw [htext, hparts], ?_⟩
  intro key' hkey'
  exact (hsame _ _ hkey').2 (by decide)

end Key
end GuardedStore
