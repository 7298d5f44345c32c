import GuardedStore.Proofs.SequenceNumbers
import Mathlib.Data.Fintype.Card
import Mathlib.Data.List.Induction

/-!
# Accounting — the size and the numbers that are kept beside the values

A store keeps the size of all values beside them, and with each value the number of the commit that
put it.  A commit is carried out edit by edit, and an edit adds the size of what comes in and takes
off that of what goes out.  Each edit finds the size right and keeps it right (`Sized.edit`), so no
edit of a run takes more off than there is (`Sized.covers`), whatever the commits put and delete.
The same is true of a word of 64 bits, which never drifts from the size (`Sized.wordSize_eq`).

The entry of a key tells which commit put it last, and there is an entry exactly if the key has not
been deleted since (`get?_applyAll_empty`).
-/

namespace GuardedStore

open Log

namespace Versioned

/-- The size of a value, in bytes. -/
def Entry.bytes (e : Entry) : Nat := e.value.utf8ByteSize

/-- One of the things that a commit does, one after the other. -/
inductive Edit where
  | put (seq : UInt64) (key value : String)
  | delete (key : String)
  -- the number of the commit becomes the last one
  | number (seq : UInt64)

namespace Edit

/-- The size of what comes in. -/
def brings : Edit → Nat
  | put _ _ value => value.utf8ByteSize
  | delete _ => 0
  | number _ => 0

/-- The size of what goes out: of the value that is replaced or deleted, if there is one. -/
def frees (c : Committed) : Edit → Nat
  | put _ key _ => c.sizeAt key
  | delete key => c.sizeAt key
  | number _ => 0

/-- The edits of a commit, in their order. -/
def ofCommit (commit : UInt64 × Change) : List Edit :=
  commit.2.puts.map (fun p => put commit.1 p.1 p.2) ++ commit.2.deletes.map delete ++
    [number commit.1]

end Edit

namespace Committed

variable {c : Committed} {e : Edit} {seq : UInt64} {change : Change} {key : String} {entry : Entry}
  {commits : List (UInt64 × Change)}

/-! ## Edits -/

def edit (c : Committed) : Edit → Committed
  | .put seq key value => put seq c (key, value)
  | .delete key => c.delete key
  | .number seq => { c with seq }

/-- To carry out the edits of a commit is to apply it. -/
theorem foldl_edit_ofCommit (c : Committed) (commit : UInt64 × Change) :
    (Edit.ofCommit commit).foldl edit c = c.apply commit.1 commit.2 := by
  simp only [Edit.ofCommit, List.foldl_append, List.foldl_map, List.foldl_cons, List.foldl_nil]
  rfl

theorem foldl_edit_flatMap (c : Committed) (commits : List (UInt64 × Change)) :
    (commits.flatMap Edit.ofCommit).foldl edit c = c.applyAll commits := by
  induction commits generalizing c with
  | nil => rfl
  | cons commit commits ih =>
      rw [List.flatMap_cons, List.foldl_append, foldl_edit_ofCommit, ih, applyAll_cons]

/-! ## The size -/

theorem total_bytes (c : Committed) :
    c.entries.total Entry.bytes = c.contents.total String.utf8ByteSize := by
  simp [SortedMap.total, SortedMap.values, contents, SortedMap.mapValues, Function.comp_def,
    Entry.bytes]

theorem Sized.valueBytes_eq (h : Sized c) : c.valueBytes = c.entries.total Entry.bytes :=
  h.trans c.total_bytes.symm

/-- The size of one value is part of the size of all. -/
theorem Sized.sizeAt_le (h : Sized c) (key : String) : c.sizeAt key ≤ c.valueBytes := by
  have htotal := SortedMap.total_erase String.utf8ByteSize c.contents key
  unfold Sized at h
  rw [sizeAt_eq]
  omega

theorem Sized.frees_le (h : Sized c) (e : Edit) : e.frees c ≤ c.valueBytes := by
  cases e with
  | put seq key value => exact h.sizeAt_le key
  | delete key => exact h.sizeAt_le key
  | number seq => exact Nat.zero_le _

theorem valueBytes_edit (c : Committed) (e : Edit) :
    (c.edit e).valueBytes = c.valueBytes + e.brings - e.frees c := by
  cases e with
  | put seq key value => rfl
  | delete key => rfl
  | number seq => rfl

/-- An edit keeps the size right. -/
theorem Sized.edit (h : Sized c) (e : Edit) : Sized (c.edit e) := by
  cases e with
  | put seq key value => exact h.put seq (key, value)
  | delete key => exact h.delete key
  | number seq => exact h

theorem Sized.foldl_edit (h : Sized c) (edits : List Edit) :
    Sized (edits.foldl Committed.edit c) := by
  induction edits generalizing c with
  | nil => exact h
  | cons e edits ih => exact ih (h.edit e)

/-- An edit finds the size right, and takes no more off than there is. -/
structure Covers (c : Committed) (e : Edit) : Prop where
  size : c.valueBytes = c.entries.total Entry.bytes
  frees : e.frees c ≤ c.valueBytes
  edited : (c.edit e).valueBytes = c.valueBytes + e.brings - e.frees c

theorem Sized.covers (h : Sized c) (e : Edit) : Covers c e :=
  ⟨h.valueBytes_eq, h.frees_le e, c.valueBytes_edit e⟩

/-- The size as a word of 64 bits keeps it, which comes around at zero and at `2 ^ 64`. -/
def wordSize (c : Committed) (size : UInt64) : List Edit → UInt64
  | [] => size
  | e :: rest => wordSize (c.edit e) (size + .ofNat e.brings - .ofNat (e.frees c)) rest

theorem Sized.wordSize_eq (h : Sized c) (edits : List Edit) :
    c.wordSize (.ofNat c.valueBytes) edits =
      .ofNat (edits.foldl Committed.edit c).valueBytes := by
  induction edits generalizing c with
  | nil => rfl
  | cons e edits ih =>
      have hexact : c.valueBytes + e.brings = (c.edit e).valueBytes + e.frees c := by
        have hfrees := h.frees_le e
        have hedited := c.valueBytes_edit e
        omega
      -- to come around when something is added is undone when something is taken off
      have hword : UInt64.ofNat c.valueBytes + .ofNat e.brings - .ofNat (e.frees c) =
          .ofNat (c.edit e).valueBytes := by
        rw [← UInt64.ofNat_add, hexact, UInt64.ofNat_add, UInt64.add_sub_cancel]
      rw [wordSize, hword, ih (h.edit e), List.foldl_cons]

/-! ## The entries -/

/-- An entry was put under a key by one of some commits, and nothing has happened to the key since:
the commit does not delete it, and no later one puts or deletes it. -/
def LastPut (commits : List (UInt64 × Change)) (key : String) (entry : Entry) : Prop :=
  ∃ before change after, commits = before ++ (entry.seq, change) :: after ∧
    SortedMap.lastValue? key change.puts = some entry.value ∧ key ∉ change.deletes ∧
    ∀ later ∈ after, key ∉ later.2.puts.map Prod.fst ∧ key ∉ later.2.deletes

theorem not_lastPut_nil : ¬ LastPut [] key entry := by
  rintro ⟨before, change, after, hsplit, -⟩
  simp at hsplit

/-- One more commit either puts the entry, or leaves the key alone. -/
theorem lastPut_concat_iff :
    LastPut (commits ++ [(seq, change)]) key entry ↔
      key ∉ change.deletes ∧
        (SortedMap.lastValue? key change.puts = some entry.value ∧ seq = entry.seq ∨
          key ∉ change.puts.map Prod.fst ∧ LastPut commits key entry) := by
  constructor
  · rintro ⟨before, change', after, hsplit, hvalue, hkept, hlater⟩
    rcases List.eq_nil_or_concat after with rfl | ⟨after, last, rfl⟩
    · -- the last commit has put the entry
      rcases List.append_inj' hsplit rfl with ⟨-, hlast⟩
      cases hlast
      exact ⟨hkept, .inl ⟨hvalue, rfl⟩⟩
    · -- the last commit is one of the later ones
      have hsplit' : commits ++ [(seq, change)] =
          (before ++ (entry.seq, change') :: after) ++ [last] := by
        simpa using hsplit
      rcases List.append_inj' hsplit' rfl with ⟨rfl, hlast⟩
      cases hlast
      have hnothing := hlater (seq, change) (by simp)
      refine ⟨hnothing.2, .inr ⟨hnothing.1, before, change', after, rfl, hvalue, hkept, ?_⟩⟩
      intro later hmem
      exact hlater later (by simp [hmem])
  · rintro ⟨hkept, ⟨hvalue, rfl⟩ | ⟨hother, before, change', after, rfl, hvalue, hkept', hlater⟩⟩
    · exact ⟨commits, change, [], rfl, hvalue, hkept, by simp⟩
    · refine ⟨before, change', after ++ [(seq, change)], by simp, hvalue, hkept', ?_⟩
      intro later hmem
      rcases List.mem_append.1 hmem with hmem | hmem
      · exact hlater later hmem
      · rw [List.mem_singleton.1 hmem]
        exact ⟨hother, hkept⟩

/-- A key has the entry of its last put, if it has not been deleted since. -/
theorem get?_applyAll_empty (commits : List (UInt64 × Change)) (key : String) (entry : Entry) :
    (empty.applyAll commits).entries.get? key = some entry ↔ LastPut commits key entry := by
  -- what happens to a key is decided by the last commits first
  induction commits using List.reverseRecOn with
  | nil => simpa [empty] using not_lastPut_nil
  | append_singleton commits commit ih =>
      obtain ⟨seq, change⟩ := commit
      rw [lastPut_concat_iff, ← ih, ← SortedMap.lastValue?_isSome_iff, applyAll_append,
        applyAll_cons, applyAll_nil, get?_apply]
      by_cases hdeleted : key ∈ change.deletes
      · simp [hdeleted]
      · obtain ⟨value, number⟩ := entry
        cases SortedMap.lastValue? key change.puts with
        | some v => simp [hdeleted]
        | none => simp [hdeleted]

theorem get?_apply_of_mem_deletes (hdeleted : key ∈ change.deletes) :
    (c.apply seq change).entries.get? key = none := by
  rw [get?_apply, if_pos hdeleted]

/-- Whatever the first number is, none is greater than the last one. -/
theorem bounded_applyAll_empty (h : (commits.map Prod.fst).Pairwise (· < ·)) :
    Bounded (empty.applyAll commits) := by
  cases commits with
  | nil => exact bounded_empty
  | cons commit commits =>
      have hfirst : Bounded (empty.apply commit.1 commit.2) :=
        bounded_empty.apply UInt64.zero_le commit.2
      exact hfirst.applyAll h

/-! ## Accounts -/

/-- What has been committed is what some commits amount to, and the accounts of it are right. -/
structure Accounted (commits : List (UInt64 × Change)) (c : Committed) : Prop where
  amounts : c = empty.applyAll commits
  size : c.valueBytes = c.entries.total Entry.bytes
  /-- It is what the edits of the commits lead to, and each edit is covered when its turn comes. -/
  edits : c = (commits.flatMap Edit.ofCommit).foldl edit empty
  covered : ∀ done e rest, commits.flatMap Edit.ofCommit = done ++ e :: rest →
    Covers (done.foldl edit empty) e
  /-- A word of 64 bits has the same size in the end, unless the size is too large for it. -/
  word : (empty.wordSize 0 (commits.flatMap Edit.ofCommit)).toNat =
    c.entries.total Entry.bytes % 2 ^ 64
  entries : ∀ key entry, c.entries.get? key = some entry ↔ LastPut commits key entry
  bounded : ∀ key entry, c.entries.get? key = some entry → entry.seq ≤ c.seq
  /-- After each of the commits the keys that it deletes have no value. -/
  deleted : ∀ before commit after, commits = before ++ commit :: after →
    ∀ key ∈ commit.2.deletes, (empty.applyAll (before ++ [commit])).entries.get? key = none

theorem accounted_applyAll_empty (h : (commits.map Prod.fst).Pairwise (· < ·)) :
    Accounted commits (empty.applyAll commits) := by
  have hsized : Sized (empty.applyAll commits) := sized_empty.applyAll commits
  have hedits := foldl_edit_flatMap empty commits
  refine ⟨rfl, hsized.valueBytes_eq, hedits.symm, ?_, ?_, get?_applyAll_empty commits,
    bounded_applyAll_empty h, ?_⟩
  · intro done e rest _
    exact (sized_empty.foldl_edit done).covers e
  · have hword := sized_empty.wordSize_eq (commits.flatMap Edit.ofCommit)
    rw [hedits, hsized.valueBytes_eq] at hword
    exact (congrArg UInt64.toNat hword).trans UInt64.toNat_ofNat'
  · intro before commit after _ key hmem
    rw [applyAll_append, applyAll_cons, applyAll_nil]
    exact get?_apply_of_mem_deletes hmem

end Committed
end Versioned

/-! ## Stores -/

namespace System

open Versioned

variable {ι : Type} {calls : ι → StoreCall} {replayed : List (UInt64 × Change)} {s : VersionedStore}
  {σ : System ι} {d : Disk}

/-- What a store has in memory is accounted for by the commits that were replayed and those of calls
that came since, and the store tells its size and the number of its keys. -/
structure Accounts (calls : ι → StoreCall) (replayed : List (UInt64 × Change)) (σ : System ι) :
    Prop where
  accounted : Committed.Accounted (replayed ++ commitsOf calls σ.order) σ.store.committed
  dataSize : σ.store.closed = false →
    σ.store.dataSize = .ok (σ.store.committed.entries.total Entry.bytes)
  keyCount : σ.store.closed = false → σ.store.keyCount = .ok σ.store.committed.entries.size

/-- The commits of calls have numbers that come after those of replayed commits. -/
theorem increasing_of_run [DecidableEq ι] (hreplayed : Increasing 0 replayed)
    (hcommitted : s.committed = Committed.empty.applyAll replayed)
    (hrun : Run calls (start s d) σ) (hroom : s.committed.seq.toNat + σ.order.length < 2 ^ 64) :
    Increasing 0 (replayed ++ commitsOf calls σ.order) := by
  have hmore : Increasing s.committed.seq (commitsOf calls σ.order) :=
    ((Ordered.start calls s d).run hrun).numbered.increasing hroom
  rw [hcommitted, Committed.seq_applyAll] at hmore
  exact hreplayed.append hmore

/-- Whatever commits with increasing numbers put and delete, what they amount to is accounted for,
edit by edit.  And whatever a store is opened on and whatever calls take turns at it, this is what
it has in memory, as long as there are numbers left. -/
theorem accounted_of_increasing :
    (∀ commits : List (UInt64 × Change), (commits.map Prod.fst).Pairwise (· < ·) →
      Committed.Accounted commits (Committed.empty.applyAll commits)) ∧
    ∀ {d d' : Disk} {path : String} {settings : StorageSettings} {s : VersionedStore},
      VersionedStore.openAt d path settings = (d', .ok s) →
        ∃ d₁ log replay, CommitLog.openAt d path = (d₁, .ok (log, replay)) ∧
          ∀ {ι : Type} [DecidableEq ι] {calls : ι → StoreCall} {σ : System ι},
            Run calls (start s d') σ → s.committed.seq.toNat + σ.order.length < 2 ^ 64 →
              Accounts calls replay.commits σ := by
  refine ⟨fun commits h => Committed.accounted_applyAll_empty h, ?_⟩
  intro d d' path settings s hopen
  rcases VersionedStore.replayed_of_openAt hopen with
    ⟨d₁, log, replay, _, hlog, hreplayed, hopened⟩
  have hcommitted : s.committed = Committed.empty.applyAll replay.commits := by rw [hopened]; rfl
  refine ⟨d₁, log, replay, hlog, ?_⟩
  intro ι _ calls σ hrun hroom
  have hincreasing := increasing_of_run hreplayed hcommitted hrun hroom
  have hamounts : σ.store.committed =
      Committed.empty.applyAll (replay.commits ++ commitsOf calls σ.order) := by
    rw [((Ordered.start calls s d').run hrun).committed, after, hcommitted,
      Committed.applyAll_append]
  have haccounted := Committed.accounted_applyAll_empty (List.pairwise_cons.1 hincreasing).2
  rw [← hamounts] at haccounted
  refine ⟨haccounted, ?_, ?_⟩
  · intro hopen
    rw [VersionedStore.dataSize, VersionedStore.ensureOpen_of_open hopen, haccounted.size]
  · intro hopen
    rw [VersionedStore.keyCount, VersionedStore.ensureOpen_of_open hopen]

/-- Commits that put a key twice, delete what they have put, and delete what is not there. -/
def overwriting : List (UInt64 × Change) :=
  [(3, ⟨[("/a", "one"), ("/a", "four"), ("/b", "x")], ["/b", "/z"]⟩),
    (7, ⟨[("/b", "é"), ("/a", "")], []⟩),
    (8, ⟨[("/c", "w")], ["/a", "/a"]⟩)]

/-- What such commits amount to is accounted for, and so is a store that has replayed one commit and
made another one. -/
theorem accounted_of_increasing_overwriting :
    (overwriting.map Prod.fst).Pairwise (· < ·) ∧
      Committed.Accounted overwriting (Committed.empty.applyAll overwriting) ∧
      (Committed.empty.applyAll overwriting).entries.toList =
        [("/b", ⟨"é", 7⟩), ("/c", ⟨"w", 8⟩)] ∧
      (Committed.empty.applyAll overwriting).valueBytes = 3 ∧
      ∃ (d d₁ : Disk) (s : VersionedStore) (log : CommitLog) (replay : Replay)
        (calls : Unit → StoreCall) (σ : System Unit),
        VersionedStore.openAt (VersionedStore.withCommit 5) "store" .standard = (d, .ok s) ∧
          CommitLog.openAt (VersionedStore.withCommit 5) "store" = (d₁, .ok (log, replay)) ∧
          Run calls (start s d) σ ∧ σ.store.committed.seq = 6 ∧
          Accounts calls replay.commits σ := by
  have hnumbers : (overwriting.map Prod.fst).Pairwise (· < ·) := by decide
  refine ⟨hnumbers, accounted_of_increasing.1 _ hnumbers, by decide, by decide, ?_⟩
  have hfits : (Batch.updating ⟨"/b", by decide, by decide, by decide⟩ "w").change.Fits := by
    decide
  rcases VersionedStore.perform_withCommit 5 (by decide) rfl hfits with
    ⟨d, s, d', s', values, hopen, -, hseq, -, hperform, hafter⟩
  rcases accounted_of_increasing.2 hopen with ⟨d₁, log, replay, hlog, haccounts⟩
  -- a single call makes the commit
  rcases run_carryOut (i := ()) (σ := start s d)
      (fun _ => .perform (.updating ⟨"/b", by decide, by decide, by decide⟩ "w"))
      (fun _ => rfl) rfl with ⟨σ, hrun, hended⟩
  have hstore : σ.store = s' := hended.store.trans (congrArg Prod.fst hperform)
  have hlength := ((Ordered.start _ s d).run hrun).nodup.length_le_card
  rw [List.length_map, Fintype.card_unit] at hlength
  refine ⟨d, d₁, s, log, replay, _, σ, hopen, hlog, hrun, ?_, haccounts hrun ?_⟩
  · rw [hstore, ← hafter.last]
    rfl
  · rw [hseq]
    have hfive : (5 : UInt64).toNat = 5 := rfl
    omega

end System
end GuardedStore
