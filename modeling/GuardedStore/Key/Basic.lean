/-!
# Keys

A key names a stored value by a path such as `/config/db/host`: each part has a slash in front.
A path may be spelled with repeated and trailing slashes; a key holds the one canonical spelling,
so two spellings name the same key exactly if their keys are equal.  Keys are ordered by that text.

`Key.create` reads a spelling and `Key.segments` lists the parts of one.
-/

namespace GuardedStore

/-- A path in its canonical spelling: it starts with a slash, does not end with one, and no two
slashes stand side by side. -/
structure IsCanonicalPath (path : List Char) : Prop where
  absolute : path.head? = some '/'
  unfinished : path.getLast? ≠ some '/'
  single : ¬ ['/', '/'] <:+: path

structure Key where
  text : String
  canonical : IsCanonicalPath text.toList
  deriving Repr, DecidableEq

namespace Key

/-! ## Order -/

theorem ext {a b : Key} (h : a.text = b.text) : a = b := by
  cases a; cases b; cases h; rfl

instance : Ord Key := ⟨fun a b => compare a.text b.text⟩

theorem compare_def (a b : Key) : compare a b = compare a.text b.text := rfl

instance : Std.TransOrd Key where
  eq_swap {a b} := by
    rw [compare_def, compare_def]
    exact Std.OrientedCmp.eq_swap
  isLE_trans {a b c} h h' := by
    rw [compare_def] at *
    exact Std.TransCmp.isLE_trans h h'

instance : Std.LawfulEqOrd Key where
  compare_self {a} := by
    rw [compare_def]
    exact Std.ReflCmp.compare_self
  eq_of_compare {a b} h := by
    rw [compare_def] at h
    exact ext (Std.LawfulEqCmp.eq_of_compare h)

instance : ToString Key := ⟨text⟩

/-! ## Spellings -/

/-- Why a text spells neither a key nor a pattern of keys. -/
inductive Fault where
  | nothing
  -- the text does not start with a slash
  | notAbsolute
  | root
  | misplacedWildcard
  | described (reason : String)
  deriving Repr, DecidableEq

def Fault.reason : Fault → String
  | .nothing => "must not be empty"
  | .notAbsolute => "must start with '/'"
  | .root => "must not equal '/'"
  | .misplacedWildcard => "wildcards can only appear at the end"
  | .described reason => reason

def collapse : List Char → List Char
  | [] => []
  | [c] => [c]
  | c :: d :: rest => if c = '/' ∧ d = '/' then collapse (d :: rest) else c :: collapse (d :: rest)

def withoutTrailing (path : List Char) : List Char :=
  (path.reverse.dropWhile (· == '/')).reverse

/-- The parts of a path that slashes separate, without the empty ones. -/
def segments (path : List Char) : List (List Char) :=
  (path.splitOn '/').filter (fun part => !part.isEmpty)

@[simp] theorem head?_collapse (path : List Char) : (collapse path).head? = path.head? := by
  fun_induction collapse path with
  | case1 => rfl
  | case2 => rfl
  | case3 c d rest h ih => rw [ih, h.1, h.2]; rfl
  | case4 => rfl

theorem single_collapse (path : List Char) : ¬ ['/', '/'] <:+: collapse path := by
  fun_induction collapse path with
  | case1 => simp
  | case2 c =>
    intro h
    simpa using h.length_le
  | case3 c d rest h ih => exact ih
  | case4 c d rest h ih =>
    rw [List.infix_cons_iff]
    rintro (hp | hi)
    · obtain ⟨rfl, ht⟩ := List.cons_prefix_cons.1 hp
      have hd : (collapse (d :: rest)).head? = some '/' := by
        obtain ⟨t, ht⟩ := ht
        rw [← ht]; rfl
      rw [head?_collapse] at hd
      exact h ⟨rfl, by simpa using hd⟩
    · exact ih hi

/-- An absolute path other than the root, with its runs of slashes collapsed. -/
structure AbsolutePath where
  text : List Char
  absolute : text.head? = some '/'
  single : ¬ ['/', '/'] <:+: text
  notRoot : text ≠ ['/']

def AbsolutePath.create (raw : List Char) : Except Fault AbsolutePath :=
  if raw = [] then .error .nothing
  else if absolute : (collapse raw).head? = some '/' then
    if notRoot : collapse raw ≠ ['/'] then
      .ok ⟨collapse raw, absolute, single_collapse raw, notRoot⟩
    else .error .root
  else .error .notAbsolute

theorem withoutTrailing_isPrefix (path : List Char) : withoutTrailing path <+: path := by
  have h := List.dropWhile_suffix (l := path.reverse) (· == '/')
  simpa [withoutTrailing] using List.reverse_prefix.2 h

theorem getLast?_withoutTrailing (path : List Char) :
    (withoutTrailing path).getLast? ≠ some '/' := by
  rw [withoutTrailing, List.getLast?_reverse]
  intro h
  have := List.head?_dropWhile_not (· == '/') path.reverse
  simp [h] at this

theorem all_of_dropWhile_eq_nil {p : Char → Bool} {l : List Char} (h : l.dropWhile p = []) :
    ∀ c ∈ l, p c = true := by
  induction l with
  | nil => simp
  | cons a rest ih =>
    by_cases hp : p a = true
    · simp_all
    · simp [hp] at h

/-- The root is the only collapsed path that is made of slashes. -/
theorem eq_root_of_all {path : List Char} (hh : path.head? = some '/')
    (hs : ¬ ['/', '/'] <:+: path) (hall : ∀ c ∈ path, c = '/') : path = ['/'] := by
  cases path with
  | nil => simp at hh
  | cons a tail => cases tail with
    | nil => rw [hall a (by simp)]
    | cons b tail =>
      refine absurd ?_ hs
      rw [hall a (by simp), hall b (by simp)]
      exact ⟨[], tail, by simp⟩

/-- Something is left in front of the slashes at the end of a path that is not the root. -/
theorem head?_withoutTrailing {path : List Char} (hh : path.head? = some '/')
    (hs : ¬ ['/', '/'] <:+: path) (hr : path ≠ ['/']) :
    (withoutTrailing path).head? = some '/' := by
  obtain ⟨rest, hrest⟩ := withoutTrailing_isPrefix path
  cases hw : withoutTrailing path with
  | nil =>
    have hall : ∀ c ∈ path, c = '/' := by
      have : path.reverse.dropWhile (· == '/') = [] := by
        simpa [withoutTrailing] using hw
      simpa using all_of_dropWhile_eq_nil this
    exact absurd (eq_root_of_all hh hs hall) hr
  | cons a tail =>
    rw [hw] at hrest
    rw [← hrest] at hh
    simpa using hh

/-- What is left of an absolute path that is collapsed and not the root is canonical. -/
theorem canonical_withoutTrailing {path : List Char} (hh : path.head? = some '/')
    (hs : ¬ ['/', '/'] <:+: path) (hr : path ≠ ['/']) : IsCanonicalPath (withoutTrailing path) :=
  ⟨head?_withoutTrailing hh hs hr, getLast?_withoutTrailing _,
    fun hi => hs (hi.trans (withoutTrailing_isPrefix _).isInfix)⟩

def ofPath (path : AbsolutePath) : Key :=
  ⟨String.ofList (withoutTrailing path.text), by
    simpa using canonical_withoutTrailing path.absolute path.single path.notRoot⟩

def create (raw : String) : Except Fault Key := (AbsolutePath.create raw.toList).map ofPath

end Key

end GuardedStore
