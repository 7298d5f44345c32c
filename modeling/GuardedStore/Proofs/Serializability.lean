import GuardedStore.Proofs.CommitOrder
import GuardedStore.Proofs.Performing
import Mathlib.Data.Fintype.Card

/-!
# Serializability — calls at the same time are as good as calls one after the other

When all calls have returned, the contents of the store are what the batches that were acknowledged
make of the contents from before, one after the other in the order of their numbers (`Serialized`).
Each call has read from the contents at one moment, which includes all that was acknowledged before
the call came, and what it has read of a key that it writes is what it replaced: no update is lost.
-/

namespace GuardedStore
namespace System

open Versioned

variable {ι : Type} {calls : ι → StoreCall} {c : Committed} {σ σ' σ₁ : System ι}
  {s : VersionedStore} {d d' : Disk} {i j : ι} {b : Batch} {q : String} {t : Transaction}
  {old order seen before : List (ι × UInt64)} {floor : ι → List (ι × UInt64)}

/-! ## Contents -/

/-- What the batches of some calls make of contents, one after the other. -/
def effect (calls : ι → StoreCall) (contents : SortedMap String String)
    (order : List (ι × UInt64)) : SortedMap String String :=
  order.foldl (fun contents e => (calls e.1).batch.writeTo contents) contents

theorem contents_after (calls : ι → StoreCall) (c : Committed) (order : List (ι × UInt64)) :
    (after calls c order).contents = effect calls c.contents order := by
  induction order generalizing c with
  | nil => rfl
  | cons e order ih =>
      have hnext := ih (c.apply e.2 (calls e.1).batch.change)
      rw [Committed.contents_apply, writeTo_change] at hnext
      exact hnext

/-- A key whose number was kept has kept its value, as long as no number comes twice. -/
theorem get?_contents_of_kept (hbounded : c.Bounded) (hnumbered : Numbered c before)
    (hroom : c.seq.toNat + before.length < 2 ^ 64) (hseen : seen <+: before)
    (hkept : Kept b (after calls c seen) (after calls c before)) (hq : q ∈ b.written) :
    (after calls c before).contents.get? q = (after calls c seen).contents.get? q := by
  have hincreasing : Log.Increasing c.seq (commitsOf calls before) := hnumbered.increasing hroom
  rcases hseen with ⟨rest, rfl⟩
  rw [commitsOf, List.map_append] at hincreasing
  -- the later commits have numbers that are greater than all numbers seen
  have hlater : Log.Increasing (after calls c seen).seq (commitsOf calls rest) := by
    have hrest := hincreasing.append_right
    rw [← Committed.seq_applyAll] at hrest
    exact hrest
  have hsplit : after calls c (seen ++ rest) =
      (after calls c seen).applyAll (commitsOf calls rest) := by
    simp [after, commitsOf, Committed.applyAll_append]
  -- so a number that was kept is that of the same entry
  have hsame : (after calls c (seen ++ rest)).entries.get? q =
      (after calls c seen).entries.get? q := by
    have hnumber := hkept q hq
    rw [hsplit] at hnumber ⊢
    exact Committed.get?_eq_of_seq_eq (hbounded.applyAll hincreasing.append_left)
      (fun commit hcommit => hlater.lt_of_mem hcommit) hnumber
  simp only [Committed.contents, SortedMap.get?_mapValues, hsame]

/-! ## Stores that calls have made -/

/-- A store that was opened, from whatever the disk holds, and that calls may have worked on. -/
inductive Reached : VersionedStore → Disk → Prop where
  | opened {d d' : Disk} {path : String} {settings : StorageSettings} {s : VersionedStore} :
      VersionedStore.openAt d path settings = (d', .ok s) → Reached s d'
  | used {ι : Type} [DecidableEq ι] {calls : ι → StoreCall} {s : VersionedStore} {d : Disk}
      {σ : System ι} : Reached s d → Run calls (start s d) σ → σ.Quiet →
      s.committed.seq.toNat + σ.order.length < 2 ^ 64 - 1 → Reached σ.store σ.disk

theorem bounded_of_openAt {path : String} {settings : StorageSettings}
    (h : VersionedStore.openAt d path settings = (d', .ok s)) : s.committed.Bounded := by
  rcases VersionedStore.replayed_of_openAt h with ⟨_, _, _, _, -, hincreasing, rfl⟩
  exact Committed.bounded_empty.applyAll hincreasing

theorem bounded_after (hbounded : c.Bounded) (hnumbered : Numbered c order)
    (hroom : c.seq.toNat + order.length < 2 ^ 64) : (after calls c order).Bounded :=
  hbounded.applyAll (hnumbered.increasing hroom)

/-- No store uses a number that is still to come. -/
theorem Reached.bounded (h : Reached s d) : s.committed.Bounded := by
  induction h with
  | opened hopen => exact bounded_of_openAt hopen
  | @used ι _ calls s d σ _ hrun _ hroom ih =>
      have hordered := (Ordered.start calls s d).run hrun
      rw [hordered.committed]
      exact bounded_after ih hordered.numbered (by omega)

/-! ## What calls amount to -/

/-- The calls are as good as calls that came one after the other. -/
structure Serialized (calls : ι → StoreCall) [DecidableEq ι] (s : VersionedStore) (d : Disk)
    (σ : System ι) : Prop where
  once : (σ.order.map Prod.fst).Nodup
  /-- Those that committed are those that write and were acknowledged. -/
  acknowledged : ∀ i, i ∈ σ.order.map Prod.fst ↔
    ∃ b values, calls i = .perform b ∧ b.isReadOnly = false ∧
      σ.stage i = .returned (.ok (.values values))
  numbers : σ.order.map (fun e => e.2.toNat) =
    List.range' (s.committed.seq.toNat + 1) σ.order.length
  contents : σ.store.committed.contents = effect calls s.committed.contents σ.order
  /-- Whoever was acknowledged before a call came is among those whose effects it has read. -/
  reads : ∀ i b values, calls i = .perform b → σ.stage i = .returned (.ok (.values values)) →
    ∀ σ₁, Run calls (start s d) σ₁ → σ₁.stage i = .waiting → Run calls σ₁ σ →
      ∃ seen, seen <+: σ.order ∧ values = b.readFrom (effect calls s.committed.contents seen) ∧
        ∀ j b' answer, calls j = .perform b' → b'.isReadOnly = false →
          σ₁.stage j = .returned (.ok answer) → j ∈ seen.map Prod.fst
  /-- What was read of a key that is written is what was there at the commit. -/
  updates : ∀ before i seq rest b values, σ.order = before ++ (i, seq) :: rest →
    calls i = .perform b → σ.stage i = .returned (.ok (.values values)) →
      ∀ key ∈ b.read.keys, key.text ∈ b.written →
        values.get? key = (effect calls s.committed.contents before).get? key.text

theorem mem_of_settled (h : Settled calls c old order i t) : i ∈ order.map Prod.fst := by
  rcases h with ⟨-, before, seq, rest, rfl, -⟩
  simp

namespace Ordered

theorem performed {values : Values} (h : Ordered calls c floor σ) (hcall : calls i = .perform b)
    (hstage : σ.stage i = .returned (.ok (.values values))) :
    ∃ t, values = t.valuesOf b ∧
      ((b.isReadOnly = true ∧ Absent σ.order i ∧ Sees calls c (floor i) σ.order t) ∨
        Settled calls c (floor i) σ.order i t) := by
  have hknown := h.known i
  rw [hstage] at hknown
  simp only [Known, hcall] at hknown
  rcases hknown with ⟨t, hvalues, hrest⟩
  exact ⟨t, Answer.values.inj hvalues, hrest⟩

/-- Whoever writes and was acknowledged has committed. -/
theorem mem_of_acknowledged {answer : Answer} (h : Ordered calls c floor σ)
    (hcall : calls i = .perform b) (hwrite : b.isReadOnly = false)
    (hstage : σ.stage i = .returned (.ok answer)) : i ∈ σ.order.map Prod.fst := by
  have hknown := h.known i
  rw [hstage] at hknown
  simp only [Known, hcall] at hknown
  rcases hknown with ⟨t, -, ⟨hread, -⟩ | hsettled⟩
  · rw [hwrite] at hread
    cases hread
  · exact mem_of_settled hsettled

/-- Whoever has committed writes, and is acknowledged when it has returned. -/
theorem acknowledged_of_mem (h : Ordered calls c floor σ) (hquiet : σ.Quiet)
    (hmem : i ∈ σ.order.map Prod.fst) :
    ∃ b values, calls i = .perform b ∧ b.isReadOnly = false ∧
      σ.stage i = .returned (.ok (.values values)) := by
  have hknown := h.known i
  rcases hquiet i with hwaiting | ⟨answer, hreturned⟩
  · rw [hwaiting] at hknown
    exact absurd hmem hknown
  · rw [hreturned] at hknown
    cases answer with
    | error e => exact absurd hmem hknown
    | ok answer =>
        simp only [Known] at hknown
        cases hcall : calls i with
        | query q =>
            rw [hcall] at hknown
            exact absurd hmem hknown.1
        | close =>
            rw [hcall] at hknown
            exact absurd hmem hknown
        | perform b =>
            rw [hcall] at hknown
            rcases hknown with ⟨t, rfl, ⟨-, habsent, -⟩ | ⟨hwrite, -⟩⟩
            · exact absurd hmem habsent
            · rw [hcall] at hwrite
              exact ⟨b, t.valuesOf b, rfl, hwrite, hreturned⟩

/-- A call has only one place in the order. -/
theorem before_eq {before before' rest rest' : List (ι × UInt64)} {seq seq' : UInt64}
    (h : Ordered calls c floor σ) (hplace : σ.order = before ++ (i, seq) :: rest)
    (hplace' : σ.order = before' ++ (i, seq') :: rest') : before = before' := by
  -- if one place came earlier, the other one would be a second one behind it
  have hfirst : ∀ {before before' middle rest rest' : List (ι × UInt64)} {seq seq' : UInt64},
      σ.order = before ++ (i, seq) :: rest → before' = before ++ middle →
      (i, seq) :: rest = middle ++ (i, seq') :: rest' → before = before' := by
    intro before before' middle rest rest' seq seq' hplace hmiddle hsplit
    cases middle with
    | nil => rw [hmiddle, List.append_nil]
    | cons e middle =>
        rcases List.cons.inj hsplit with ⟨-, hrest⟩
        have hnodup := h.nodup
        rw [hplace, hrest] at hnodup
        simp [List.nodup_append] at hnodup
  rcases List.append_eq_append_iff.1 (hplace.symm.trans hplace') with
    ⟨middle, hmiddle, hsplit⟩ | ⟨middle, hmiddle, hsplit⟩
  · exact hfirst hplace hmiddle hsplit
  · exact (hfirst hplace' hmiddle hsplit).symm

end Ordered

theorem valuesOf_after (calls : ι → StoreCall) (c : Committed) (seen : List (ι × UInt64))
    (b : Batch) :
    (after calls c seen).view.valuesOf b = b.readFrom (effect calls c.contents seen) := by
  rw [valuesOf_view, contents_after]

variable [DecidableEq ι]

/-- Calls are serialized, whatever turns they take. -/
theorem serialized_of_run (hreached : Reached s d) (hrun : Run calls (start s d) σ)
    (hquiet : σ.Quiet) (hroom : s.committed.seq.toNat + σ.order.length < 2 ^ 64 - 1) :
    Serialized calls s d σ := by
  have hordered := (Ordered.start calls s d).run hrun
  refine ⟨hordered.nodup, ?_, ?_, ?_, ?_, ?_⟩
  · intro i
    constructor
    · intro hmem
      exact hordered.acknowledged_of_mem hquiet hmem
    · rintro ⟨b, values, hcall, hwrite, hstage⟩
      exact hordered.mem_of_acknowledged hcall hwrite hstage
  · exact hordered.numbered.toNat_eq (by omega)
  · rw [hordered.committed, contents_after]
  · intro i b values hcall hstage σ₁ hrun₁ hwaiting hrest
    -- from σ₁ on, what the call sees includes the order of σ₁
    have hraised := (((Ordered.start calls s d).run hrun₁).raise hwaiting).run hrest
    have hseen : ∃ seen, σ₁.order <+: seen ∧ seen <+: σ.order ∧
        values = b.readFrom (effect calls s.committed.contents seen) := by
      rcases hraised.performed hcall hstage with
        ⟨t, hvalues, ⟨-, -, seen, hold, hseen, ht⟩ | ⟨-, before, seq, rest, hplace, hpassed⟩⟩
      · rw [Function.update_self] at hold
        rw [ht, valuesOf_after] at hvalues
        exact ⟨seen, hold, hseen, hvalues⟩
      · rcases hpassed with ⟨seen, hold, hseen, ht, -⟩
        rw [Function.update_self] at hold
        rw [ht, valuesOf_after] at hvalues
        refine ⟨seen, hold, hseen.trans ?_, hvalues⟩
        rw [hplace]
        exact List.prefix_append ..
    rcases hseen with ⟨seen, hold, hseen, hvalues⟩
    refine ⟨seen, hseen, hvalues, ?_⟩
    intro j b' answer hcall' hwrite hstage'
    -- whoever was acknowledged by then is in the order of σ₁
    have hmem := ((Ordered.start calls s d).run hrun₁).mem_of_acknowledged hcall' hwrite hstage'
    exact (hold.map Prod.fst).subset hmem
  · intro before i seq rest b values hplace hcall hstage key hread hwritten
    have hmem : i ∈ σ.order.map Prod.fst := by simp [hplace]
    rcases hordered.performed hcall hstage with
      ⟨t, hvalues, ⟨-, habsent, -⟩ | ⟨-, before', seq', rest', hplace', hpassed⟩⟩
    · exact absurd hmem habsent
    · rcases hpassed with ⟨seen, -, hseen, ht, hkept⟩
      -- the place where the transaction passed is the place of the commit
      rw [← hordered.before_eq hplace hplace', hcall] at hkept
      rw [← hordered.before_eq hplace hplace'] at hseen
      have hbefore : before <+: σ.order := by
        rw [hplace]
        exact List.prefix_append ..
      have hlength := hbefore.length_le
      have hsame := get?_contents_of_kept hreached.bounded (hordered.numbered.of_prefix hbefore)
        (by omega) hseen hkept hwritten
      rw [contents_after, contents_after] at hsame
      rw [hvalues, ht, valuesOf_after, Batch.get?_readFrom, if_pos hread, hsame]

/-- The update of one key. -/
def firstBatch : Batch := .updating VersionedStore.firstKey "1"

theorem fits_firstBatch : firstBatch.change.Fits := VersionedStore.fits_updating (by decide)

/-- Two calls that both update it. -/
def bothUpdate : Bool → StoreCall := fun _ => .perform firstBatch

/-- The first store, with so many attempts. -/
def attempting (n : Nat) : VersionedStore := { VersionedStore.firstStore with maxAttempts := n }

/-- Two calls begin, and one of them commits first, so that the other one has to start again. -/
theorem run_contended (left : Nat) (d : Disk) :
    ∃ σ, Run bothUpdate (start (attempting (left + 1)) d) σ ∧ σ.Free ∧
      σ.stage true = .starting left (.changedKey "/a") ∧
      (∃ answer, σ.stage false = .returned answer) ∧
      σ.store = { (attempting (left + 1)).committing firstBatch.change with conflicts := 1 } := by
  have hbegun : Run bothUpdate (start (attempting (left + 1)) d)
      ((start (attempting (left + 1)) d).move true (.begun left Committed.empty.view)) :=
    run_first rfl rfl rfl rfl
  -- meanwhile the other call commits
  have hfree : ((start (attempting (left + 1)) d).move true
      (.begun left Committed.empty.view)).Free :=
    Free.move (fun _ => rfl) rfl
  rcases run_carryOut (i := false) bothUpdate hfree rfl with ⟨σ, hother, hended⟩
  have hstore : σ.store = (attempting (left + 1)).committing firstBatch.change := by
    rw [hended.store]
    exact congrArg Prod.fst
      (VersionedStore.perform_fits rfl (Nat.succ_pos left) rfl rfl fits_firstBatch)
  have hwaits : σ.stage true = .begun left Committed.empty.view := by
    rw [hended.stage]
    rfl
  have hreturned : ∃ answer, σ.stage false = .returned answer := by
    rw [hended.stage]
    exact ⟨_, rfl⟩
  have hout : σ.Free := hended.free hfree
  -- what the first call saw is not there any more
  have henter : Step bothUpdate σ (σ.move true (.entered left Committed.empty.view)) :=
    .enter rfl hwaits rfl hout
  have hconflict : (σ.move true (.entered left Committed.empty.view)).store.validate
      (Committed.empty.view.write firstBatch) =
        .error (.storageConflict (.changedKey "/a")) := by
    rw [store_move, hstore]
    rfl
  have hretry := (hother.tail henter).tail (.retry rfl (stage_move _) hconflict)
  refine ⟨_, hbegun.trans hretry, ?_, stage_move _, hreturned, ?_⟩
  · intro i
    cases i with
    | false => exact hout false
    | true => rfl
  · rw [store_move, store_move, hstore]
    rfl

/-- Two calls that update the same key at once are serialized, after one of them has met a
conflict. -/
theorem serialized_of_run_contended :
    ∃ (d : Disk) (σ : System Bool),
      VersionedStore.openAt .empty "store" .standard = (d, .ok .firstStore) ∧
        Run bothUpdate (start .firstStore d) σ ∧ σ.Quiet ∧ σ.store.conflicts = 1 ∧
        Serialized bothUpdate .firstStore d σ := by
  rcases VersionedStore.openAt_firstStore with ⟨d, hopen⟩
  rcases run_contended 9 d with ⟨σ₁, hbefore, hfree, hstage, ⟨answer, hreturned⟩, hstore⟩
  have hattempt : ∃ s d' values, σ₁.store.attempt σ₁.disk firstBatch = .ok (s, d', values) ∧
      s.conflicts = 1 := by
    rw [hstore]
    exact ⟨_, _, _, VersionedStore.attempt_of_logged rfl rfl
      (CommitLog.append_fits rfl fits_firstBatch), rfl⟩
  rcases hattempt with ⟨s, d', values, hattempt, hconflicts⟩
  have hcall : bothUpdate true = .perform firstBatch := rfl
  rcases canEnd_attempt hcall hfree hstage with ⟨σ, hlast, hended⟩
  rw [hattempt] at hended
  have hrun := hbefore.trans hlast
  have hquiet : σ.Quiet := by
    intro i
    right
    rw [hended.stage]
    cases i with
    | false => exact ⟨answer, hreturned⟩
    | true => exact ⟨_, rfl⟩
  -- two calls commit at most twice
  have hlength := ((Ordered.start bothUpdate _ _).run hrun).nodup.length_le_card
  rw [List.length_map, Fintype.card_bool] at hlength
  have hseq : VersionedStore.firstStore.committed.seq.toNat = 0 := rfl
  refine ⟨d, σ, hopen, hrun, hquiet, ?_, serialized_of_run (.opened hopen) hrun hquiet (by omega)⟩
  rw [hended.store]
  exact hconflicts

end System
end GuardedStore
