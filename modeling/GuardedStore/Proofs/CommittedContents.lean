import GuardedStore.Proofs.LogRecovery
import GuardedStore.Proofs.SortedMaps
import GuardedStore.Store.Versioned

/-!
# CommittedContents — what a sequence of commits amounts to

The contents of a store are its values without their numbers.  A commit writes its change to the
contents and takes over as the last number (`contents_apply`, `seq_apply`); the size that is kept
beside the values stays their total (`Sized.apply`).

Numbers tell whether a key has been written: commits with new numbers leave a key as it is, without
a value, or with a value that has a new number (`versions_applyAll`).  So a key whose number is what
it was has the value that it had (`get?_eq_of_seq_eq`).
-/

namespace GuardedStore

/-- What a change makes of the values under some names: it puts, and then deletes. -/
def Log.Change.writeTo (change : Log.Change) (contents : SortedMap String String) :
    SortedMap String String :=
  (contents.insertAll change.puts).eraseAll change.deletes

theorem Log.Change.get?_writeTo (change : Log.Change) (contents : SortedMap String String)
    (q : String) :
    (change.writeTo contents).get? q =
      if q ∈ change.deletes then .none
      else (SortedMap.lastValue? q change.puts).or (contents.get? q) := by
  rw [writeTo, SortedMap.get?_eraseAll, SortedMap.get?_insertAll]
  cases SortedMap.lastValue? q change.puts <;> rfl

namespace Versioned
namespace Committed

variable {c c' : Committed} {seq base : UInt64} {change : Log.Change} {q : String}
  {commits more : List (UInt64 × Log.Change)}

/-! ## Contents -/

/-- The values without their numbers. -/
def contents (c : Committed) : SortedMap String String := c.entries.mapValues Entry.value

@[simp] theorem contents_put (c : Committed) (seq : UInt64) (p : String × String) :
    (put seq c p).contents = c.contents.insert p.1 p.2 := by
  simp [contents, put]

@[simp] theorem contents_delete (c : Committed) (key : String) :
    (c.delete key).contents = c.contents.erase key := by
  simp [contents, delete]

theorem contents_foldl_put (c : Committed) (seq : UInt64) (puts : List (String × String)) :
    (puts.foldl (put seq) c).contents = c.contents.insertAll puts := by
  induction puts generalizing c with
  | nil => rfl
  | cons p puts ih => simpa [SortedMap.insertAll] using ih (put seq c p)

theorem contents_foldl_delete (c : Committed) (keys : List String) :
    (keys.foldl delete c).contents = c.contents.eraseAll keys := by
  induction keys generalizing c with
  | nil => rfl
  | cons key keys ih => simpa [SortedMap.eraseAll] using ih (c.delete key)

/-- A commit writes its change to the contents. -/
@[simp] theorem contents_apply (c : Committed) (seq : UInt64) (change : Log.Change) :
    (c.apply seq change).contents = change.writeTo c.contents := by
  have hdeletes := contents_foldl_delete (change.puts.foldl (put seq) c) change.deletes
  rw [contents_foldl_put] at hdeletes
  exact hdeletes

@[simp] theorem seq_apply (c : Committed) (seq : UInt64) (change : Log.Change) :
    (c.apply seq change).seq = seq := rfl

/-! ## Sequences of commits -/

@[simp] theorem applyAll_nil (c : Committed) : c.applyAll [] = c := rfl

@[simp] theorem applyAll_cons (c : Committed) (commit : UInt64 × Log.Change) :
    c.applyAll (commit :: commits) = (c.apply commit.1 commit.2).applyAll commits := rfl

theorem applyAll_append (c : Committed) (commits more : List (UInt64 × Log.Change)) :
    c.applyAll (commits ++ more) = (c.applyAll commits).applyAll more :=
  List.foldl_append ..

theorem seq_applyAll (c : Committed) (commits : List (UInt64 × Log.Change)) :
    (c.applyAll commits).seq = Log.Replay.lastOf c.seq commits := by
  induction commits generalizing c with
  | nil => rfl
  | cons commit commits ih =>
      rw [applyAll_cons, ih, seq_apply, Log.lastOf_cons]

/-- Both have the same values and the same last number. -/
structure Agrees (c c' : Committed) : Prop where
  contents : c.contents = c'.contents
  seq : c.seq = c'.seq

namespace Agrees

theorem refl (c : Committed) : Agrees c c := ⟨rfl, rfl⟩

theorem apply (h : Agrees c c') (seq : UInt64) (change : Log.Change) :
    Agrees (c.apply seq change) (c'.apply seq change) :=
  ⟨by simp [h.contents], rfl⟩

theorem applyAll (h : Agrees c c') (commits : List (UInt64 × Log.Change)) :
    Agrees (c.applyAll commits) (c'.applyAll commits) := by
  induction commits generalizing c c' with
  | nil => exact h
  | cons commit commits ih => exact ih (h.apply commit.1 commit.2)

end Agrees

/-- Putting all values at once makes the same contents. -/
theorem agrees_snapshot (c : Committed) : Agrees (empty.applyAll [(c.seq, c.snapshot)]) c := by
  refine ⟨?_, rfl⟩
  have hputs : c.snapshot.puts = c.contents.toList := rfl
  have hdeletes : c.snapshot.deletes = [] := rfl
  -- the entries of the map are inserted into an empty one
  rw [applyAll_cons, applyAll_nil, contents_apply, Log.Change.writeTo, hputs, hdeletes]
  exact SortedMap.insertAll_empty_toList c.contents

/-! ## Sizes -/

/-- The size that is kept is that of all values. -/
def Sized (c : Committed) : Prop := c.valueBytes = c.contents.total String.utf8ByteSize

theorem sizeAt_eq (c : Committed) (key : String) :
    c.sizeAt key = c.contents.sizeAt String.utf8ByteSize key := by
  unfold sizeAt SortedMap.sizeAt contents
  rw [SortedMap.get?_mapValues]
  cases c.entries.get? key <;> rfl

theorem sized_empty : Sized empty := rfl

theorem Sized.put (h : Sized c) (seq : UInt64) (p : String × String) :
    Sized (Committed.put seq c p) := by
  have htotal := SortedMap.total_insert String.utf8ByteSize c.contents p.1 p.2
  unfold Sized at h ⊢
  rw [contents_put]
  simp only [Committed.put, sizeAt_eq]
  omega

theorem Sized.delete (h : Sized c) (key : String) : Sized (c.delete key) := by
  have htotal := SortedMap.total_erase String.utf8ByteSize c.contents key
  unfold Sized at h ⊢
  rw [contents_delete]
  simp only [Committed.delete, sizeAt_eq]
  omega

theorem Sized.foldl_put (h : Sized c) (seq : UInt64) (puts : List (String × String)) :
    Sized (puts.foldl (Committed.put seq) c) := by
  induction puts generalizing c with
  | nil => exact h
  | cons p puts ih => exact ih (h.put seq p)

theorem Sized.foldl_delete (h : Sized c) (keys : List String) :
    Sized (keys.foldl Committed.delete c) := by
  induction keys generalizing c with
  | nil => exact h
  | cons key keys ih => exact ih (h.delete key)

theorem Sized.apply (h : Sized c) (seq : UInt64) (change : Log.Change) :
    Sized (c.apply seq change) :=
  (h.foldl_put seq change.puts).foldl_delete change.deletes

theorem Sized.applyAll (h : Sized c) (commits : List (UInt64 × Log.Change)) :
    Sized (c.applyAll commits) := by
  induction commits generalizing c with
  | nil => exact h
  | cons commit commits ih => exact ih (h.apply commit.1 commit.2)

theorem snapshot_eq (c : Committed) : c.snapshot = ⟨c.contents.toList, []⟩ := rfl

theorem size_eq (c : Committed) : c.entries.size = c.contents.size :=
  (SortedMap.size_mapValues _ _).symm

/-- Stores with the same values are of the same size. -/
theorem Agrees.valueBytes_eq (h : Agrees c c') (hc : Sized c) (hc' : Sized c') :
    c.valueBytes = c'.valueBytes := by
  unfold Sized at hc hc'
  rw [hc, hc', h.contents]

/-- Stores with the same values have the same snapshot. -/
theorem Agrees.snapshot_eq (h : Agrees c c') : c.snapshot = c'.snapshot := by
  rw [Committed.snapshot_eq, Committed.snapshot_eq, h.contents]

theorem Agrees.size_eq (h : Agrees c c') : c.entries.size = c'.entries.size := by
  rw [Committed.size_eq, Committed.size_eq, h.contents]

/-! ## Numbers -/

theorem get?_foldl_put (c : Committed) (seq : UInt64) (puts : List (String × String)) (q : String) :
    (puts.foldl (put seq) c).entries.get? q =
      ((SortedMap.lastValue? q puts).map (fun v => ⟨v, seq⟩)).or (c.entries.get? q) := by
  induction puts generalizing c with
  | nil => rfl
  | cons p puts ih =>
      obtain ⟨key, v⟩ := p
      rw [List.foldl_cons, ih, SortedMap.lastValue?]
      -- a later put of the same key wins
      cases SortedMap.lastValue? q puts with
      | some w => rfl
      | none =>
          simp only [put, SortedMap.get?_insert]
          by_cases hq : q = key
          · simp [hq]
          · simp [hq]

theorem get?_foldl_delete (c : Committed) (keys : List String) (q : String) :
    (keys.foldl delete c).entries.get? q = if q ∈ keys then none else c.entries.get? q := by
  induction keys generalizing c with
  | nil => simp
  | cons key keys ih =>
      rw [List.foldl_cons, ih]
      simp only [delete, SortedMap.get?_erase]
      by_cases hq : q ∈ keys <;> by_cases hq' : q = key <;> simp [hq, hq']

/-- What a commit does to the entry of a key. -/
theorem get?_apply (c : Committed) (seq : UInt64) (change : Log.Change) (q : String) :
    (c.apply seq change).entries.get? q =
      if q ∈ change.deletes then none
      else ((SortedMap.lastValue? q change.puts).map (fun v => ⟨v, seq⟩)).or
        (c.entries.get? q) := by
  have hdeletes := get?_foldl_delete (change.puts.foldl (put seq) c) change.deletes q
  rw [get?_foldl_put] at hdeletes
  exact hdeletes

/-- No entry has a number greater than the last one. -/
def Bounded (c : Committed) : Prop := ∀ q e, c.entries.get? q = some e → e.seq ≤ c.seq

theorem bounded_empty : Bounded empty := by
  intro q e h
  simp [empty] at h

theorem Bounded.apply (h : Bounded c) (hseq : c.seq ≤ seq) (change : Log.Change) :
    Bounded (c.apply seq change) := by
  intro q e he
  rw [get?_apply] at he
  split at he
  · cases he
  · cases hput : SortedMap.lastValue? q change.puts with
    | none =>
        rw [hput] at he
        exact UInt64.le_trans (h q e he) hseq
    | some v =>
        rw [hput] at he
        cases he
        exact UInt64.le_refl seq

theorem Bounded.applyAll (h : Bounded c) (hincreasing : Log.Increasing c.seq commits) :
    Bounded (c.applyAll commits) := by
  induction commits generalizing c with
  | nil => exact h
  | cons commit commits ih =>
      rcases hincreasing.tail with ⟨hlt, hrest⟩
      exact ih (h.apply (UInt64.le_of_lt hlt) commit.2) hrest

/-- Commits with new numbers leave a key as it is, without a value, or with a new number. -/
theorem versions_applyAll (c : Committed) (q : String)
    (hnew : ∀ commit ∈ commits, base < commit.1) :
    (c.applyAll commits).entries.get? q = c.entries.get? q ∨
      (c.applyAll commits).entries.get? q = none ∨
      ∃ e, (c.applyAll commits).entries.get? q = some e ∧ base < e.seq := by
  induction commits generalizing c with
  | nil => exact Or.inl rfl
  | cons commit commits ih =>
      have hfirst := hnew commit (by simp)
      have hlater := ih (c.apply commit.1 commit.2) (fun d hd => hnew d (by simp [hd]))
      rw [applyAll_cons]
      rcases hlater with hsame | hnone | hnewer
      · -- the later commits leave the key alone, so the first one decides
        rw [hsame, get?_apply]
        split
        · exact Or.inr (Or.inl rfl)
        · cases SortedMap.lastValue? q commit.2.puts with
          | none => exact Or.inl rfl
          | some v => exact Or.inr (Or.inr ⟨⟨v, commit.1⟩, rfl, hfirst⟩)
      · exact Or.inr (Or.inl hnone)
      · exact Or.inr (Or.inr hnewer)

/-- A key whose number is what it was has the entry that it had: numbers are never used again. -/
theorem get?_eq_of_seq_eq (hbounded : Bounded c) (hnew : ∀ commit ∈ commits, c.seq < commit.1)
    (hseq : (c.entries.get? q).map Entry.seq =
      ((c.applyAll commits).entries.get? q).map Entry.seq) :
    (c.applyAll commits).entries.get? q = c.entries.get? q := by
  rcases versions_applyAll c q hnew with hsame | hnone | ⟨e, he, hnewer⟩
  · exact hsame
  · rw [hnone, Option.map_none, Option.map_eq_none_iff] at hseq
    rw [hnone, hseq]
  · rw [he, Option.map_some] at hseq
    rcases Option.map_eq_some_iff.1 hseq with ⟨old, hold, hnumber⟩
    -- an old number is not greater than the last one, a new one is
    have hle := hbounded q old hold
    rw [hnumber] at hle
    exact absurd hnewer (UInt64.not_lt.2 hle)

end Committed
end Versioned
end GuardedStore
