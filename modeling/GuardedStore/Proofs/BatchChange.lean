import GuardedStore.Proofs.CommittedContents

/-!
# BatchChange — what a batch does in a transaction

Whatever a transaction sees, the same batch makes the same change of it (`change_write`), and that
change writes to contents what the batch does (`writeTo_change`): updates, and then deletions.  A
transaction reads what its batch reads from the contents it sees (`valuesOf_view`).  It is in
conflict with later commits unless all keys that it writes still have the numbers that it saw
(`conflict?_eq_none_iff`).
-/

namespace GuardedStore

open Versioned

variable {b : Batch} {c c' : Committed} {q : String} {k : Key}

namespace SortedMap

theorem lastValue?_isSome_iff {α β : Type} [DecidableEq α] {q : α} {l : List (α × β)} :
    (lastValue? q l).isSome ↔ q ∈ l.map (·.1) := by
  induction l with
  | nil => simp [lastValue?]
  | cons e rest ih =>
      obtain ⟨k, v⟩ := e
      rw [lastValue?, List.map_cons, List.mem_cons, ← ih]
      cases lastValue? q rest with
      | some w => simp
      | none => by_cases hk : q = k <;> simp [hk]

end SortedMap

namespace Batch

/-! ## Writing -/

theorem get?_writeTo (b : Batch) (contents : SortedMap String String) (q : String) :
    (b.writeTo contents).get? q =
      if q ∈ b.deletions then none
      else (SortedMap.lastValue? q b.updates).or (contents.get? q) := by
  rw [writeTo, SortedMap.get?_eraseAll, SortedMap.get?_insertAll]
  cases SortedMap.lastValue? q b.updates <;> rfl

/-- The keys that are updated or deleted. -/
def written (b : Batch) : List String := b.updates.map (·.1) ++ b.deletions

theorem isReadOnly_iff : b.isReadOnly = true ↔ b.written = [] := by
  simp [isReadOnly, written, updates, deletions, SortedMap.isEmpty, SortedMap.keys]

theorem not_mem_of_not_written (hq : q ∉ b.written) :
    SortedMap.lastValue? q b.updates = none ∧ q ∉ b.deletions := by
  have hnot : q ∉ b.updates.map (·.1) ∧ q ∉ b.deletions := by simpa [written] using hq
  refine ⟨?_, hnot.2⟩
  rw [← Option.not_isSome_iff_eq_none, SortedMap.lastValue?_isSome_iff]
  exact hnot.1

theorem get?_writeTo_of_not_written (contents : SortedMap String String) (hq : q ∉ b.written) :
    (b.writeTo contents).get? q = contents.get? q := by
  rcases not_mem_of_not_written hq with ⟨hnone, hkept⟩
  -- the key is not among the updates, so the old value shows
  rw [get?_writeTo, if_neg hkept, hnone, Option.none_or]

/-- A batch that writes nothing leaves all contents as they are. -/
theorem writeTo_of_isReadOnly (h : b.isReadOnly = true) (contents : SortedMap String String) :
    b.writeTo contents = contents := by
  refine SortedMap.ext ?_
  intro q
  exact get?_writeTo_of_not_written contents (by simp [isReadOnly_iff.1 h])

/-! ## Reading -/

theorem get?_foldl_read (value? : String → Option String) (keys : List Key) (values : Values)
    (k : Key) :
    (keys.foldl (fun values key => match value? key.text with
      | some value => values.insert key value
      | none => values) values).get? k =
      if k ∈ keys then (value? k.text).or (values.get? k) else values.get? k := by
  induction keys generalizing values with
  | nil => simp
  | cons key keys ih =>
      rw [List.foldl_cons, ih]
      cases hvalue : value? key.text with
      | none => by_cases hk : k = key <;> by_cases hmem : k ∈ keys <;> simp_all
      | some v =>
          simp only [SortedMap.get?_insert]
          by_cases hk : k = key <;> by_cases hmem : k ∈ keys <;> simp_all

/-- What is read of a key: its value, if the batch reads it. -/
theorem get?_readFrom (b : Batch) (contents : SortedMap String String) (k : Key) :
    (b.readFrom contents).get? k = if k ∈ b.read.keys then contents.get? k.text else none := by
  have hread := get?_foldl_read contents.get? b.read.keys .empty k
  rw [SortedMap.get?_empty, Option.or_none] at hread
  exact hread

end Batch

namespace Versioned
namespace Transaction

variable {t : Transaction}

theorem snapshot_foldl_put (t : Transaction) (l : List (Key × String)) :
    (l.foldl (fun t e => t.put e.1.text e.2) t).snapshot = t.snapshot := by
  induction l generalizing t with
  | nil => rfl
  | cons e l ih => exact ih (t.put e.1.text e.2)

theorem snapshot_foldl_delete (t : Transaction) (keys : List Key) :
    (keys.foldl (fun t key => t.delete key.text) t).snapshot = t.snapshot := by
  induction keys generalizing t with
  | nil => rfl
  | cons key keys ih => exact ih (t.delete key.text)

@[simp] theorem snapshot_write (t : Transaction) (b : Batch) :
    (t.write b).snapshot = t.snapshot := by
  unfold write
  rw [snapshot_foldl_delete, snapshot_foldl_put]

theorem puts_foldl_put (t : Transaction) (l : List (Key × String)) :
    (l.foldl (fun t e => t.put e.1.text e.2) t).puts =
      t.puts.insertAll (l.map (fun e => (e.1.text, e.2))) := by
  induction l generalizing t with
  | nil => rfl
  | cons e l ih => exact ih (t.put e.1.text e.2)

theorem puts_foldl_delete (t : Transaction) (keys : List Key) :
    (keys.foldl (fun t key => t.delete key.text) t).puts =
      t.puts.eraseAll (keys.map Key.text) := by
  induction keys generalizing t with
  | nil => rfl
  | cons key keys ih => exact ih (t.delete key.text)

/-- What is put is what the batch writes, deletions taken out. -/
theorem puts_write (t : Transaction) (b : Batch) : (t.write b).puts = b.writeTo t.puts := by
  unfold write
  rw [puts_foldl_delete, puts_foldl_put]
  rfl

theorem deletes_foldl_put (t : Transaction) (l : List (Key × String)) :
    (l.foldl (fun t e => t.put e.1.text e.2) t).deletes =
      t.deletes.eraseAll (l.map (fun e => e.1.text)) := by
  induction l generalizing t with
  | nil => rfl
  | cons e l ih => exact ih (t.put e.1.text e.2)

theorem deletes_foldl_delete (t : Transaction) (keys : List Key) :
    (keys.foldl (fun t key => t.delete key.text) t).deletes =
      t.deletes.insertAll (keys.map (fun key => (key.text, ()))) := by
  induction keys generalizing t with
  | nil => rfl
  | cons key keys ih => exact ih (t.delete key.text)

theorem deletes_write (t : Transaction) (b : Batch) :
    (t.write b).deletes =
      (t.deletes.eraseAll (b.updates.map (·.1))).insertAll
        (b.deletions.map (fun q => (q, ()))) := by
  unfold write
  rw [deletes_foldl_delete, deletes_foldl_put]
  simp [Batch.updates, Batch.deletions, Function.comp_def]

end Transaction
end Versioned

/-! ## The change of a batch -/

/-- What the batch changes when it is committed. -/
def Batch.change (b : Batch) : Log.Change := (Committed.empty.view.write b).change

namespace Versioned

open Transaction

/-- The change does not depend on what the transaction sees. -/
theorem change_write (c : Committed) (b : Batch) : (c.view.write b).change = b.change := by
  simp only [Batch.change, Transaction.change, puts_write, deletes_write, Committed.view]

theorem get?_deletes_view (c : Committed) (b : Batch) (q : String) :
    (c.view.write b).deletes.get? q = if q ∈ b.deletions then some () else none := by
  have hmap : ∀ l : List String, SortedMap.lastValue? q (l.map (fun q => (q, ()))) =
      if q ∈ l then some () else none := by
    intro l
    by_cases hq : q ∈ l
    · have hsome : (SortedMap.lastValue? q (l.map (fun q => (q, ())))).isSome :=
        SortedMap.lastValue?_isSome_iff.2 (by simpa using hq)
      rcases Option.isSome_iff_exists.1 hsome with ⟨u, hu⟩
      rw [hu, if_pos hq]
    · rw [if_neg hq, ← Option.not_isSome_iff_eq_none, SortedMap.lastValue?_isSome_iff]
      simpa using hq
  rw [deletes_write, SortedMap.get?_insertAll, hmap, SortedMap.get?_eraseAll]
  split <;> simp_all [Committed.view]

theorem mem_deletes_change : q ∈ b.change.deletes ↔ q ∈ b.deletions := by
  have hkeys : b.change.deletes = (Committed.empty.view.write b).deletes.keys := rfl
  rw [hkeys, SortedMap.mem_keys_iff, get?_deletes_view]
  split <;> simp_all

theorem lastValue?_puts_change (b : Batch) (q : String) :
    SortedMap.lastValue? q b.change.puts =
      if q ∈ b.deletions then none else SortedMap.lastValue? q b.updates := by
  -- what is put is the batch carried out on nothing, so deleted keys are not put
  have hputs : b.change.puts = (b.writeTo .empty).toList := by
    simp only [Batch.change, Transaction.change, puts_write, Committed.view]
  rw [hputs, SortedMap.lastValue?_toList, Batch.get?_writeTo]
  simp

/-- The change of a batch writes what the batch writes. -/
theorem writeTo_change (b : Batch) (contents : SortedMap String String) :
    b.change.writeTo contents = b.writeTo contents := by
  refine SortedMap.ext ?_
  intro q
  rw [Log.Change.get?_writeTo, Batch.get?_writeTo, lastValue?_puts_change]
  simp only [mem_deletes_change]
  by_cases hq : q ∈ b.deletions
  · rw [if_pos hq, if_pos hq]
  · rw [if_neg hq, if_neg hq, if_neg hq]

/-! ## Keys that are written -/

theorem mem_written_iff (c : Committed) :
    q ∈ (c.view.write b).puts.keys ++ (c.view.write b).deletes.keys ↔ q ∈ b.written := by
  rw [List.mem_append, SortedMap.mem_keys_iff, SortedMap.mem_keys_iff, get?_deletes_view,
    puts_write, Batch.get?_writeTo, Batch.written, List.mem_append,
    ← SortedMap.lastValue?_isSome_iff]
  by_cases hq : q ∈ b.deletions <;> simp [hq, Committed.view]

theorem isReadOnly_write (c : Committed) (b : Batch) :
    (c.view.write b).isReadOnly = b.isReadOnly := by
  have hiff : (c.view.write b).isReadOnly = true ↔ b.isReadOnly = true := by
    rw [Batch.isReadOnly_iff, List.eq_nil_iff_forall_not_mem]
    simp only [← mem_written_iff c, ← List.eq_nil_iff_forall_not_mem]
    simp [Transaction.isReadOnly, SortedMap.isEmpty, SortedMap.keys]
  exact Bool.eq_iff_iff.2 hiff

/-- There is no conflict if all written keys have the numbers that were seen. -/
theorem conflict?_eq_none_iff :
    (c.view.write b).conflict? c'.entries = none ↔
      ∀ q ∈ b.written, (c.entries.get? q).map Entry.seq = (c'.entries.get? q).map Entry.seq := by
  have hsnapshot : c.view.snapshot = c.entries := rfl
  unfold Transaction.conflict?
  rw [List.find?_eq_none, snapshot_write, hsnapshot]
  simp only [bne_iff_ne, ne_eq, not_not, mem_written_iff]

/-- A transaction is not in conflict with what it sees. -/
theorem conflict?_self (c : Committed) (b : Batch) :
    (c.view.write b).conflict? c.entries = none := by
  rw [conflict?_eq_none_iff]
  intro q _
  rfl

/-- A transaction reads what its batch reads from the contents that it sees. -/
theorem valuesOf_view (c : Committed) (b : Batch) :
    c.view.valuesOf b = b.readFrom c.contents := by
  have hvalue : c.view.value? = c.contents.get? := by
    funext q
    rw [Committed.contents, SortedMap.get?_mapValues]
    rfl
  rw [Transaction.valuesOf, hvalue]
  rfl

end Versioned
end GuardedStore
