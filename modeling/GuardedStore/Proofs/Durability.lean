import GuardedStore.Proofs.Serializability
import GuardedStore.Proofs.WriteAhead

/-!
# Durability — what is acknowledged survives a crash

A crash may come at any moment of a run, also while a frame is being written, so that any part of it
is in the file.  Whoever opens what is left finds the commits that took effect, and perhaps one more
whose call was not acknowledged (`Recovered`): every acknowledged batch is there, each batch is
there as a whole or not at all, and nothing that anybody has read is missing.

The store may have been opened on a fresh file, or on what an earlier crash had left (`Opened`).
-/

namespace GuardedStore
namespace System

open Versioned Log

variable {ι : Type} {calls : ι → StoreCall} {c : Committed} {σ : System ι} {s : VersionedStore}
  {d d₁ : Disk} {i : ι} {path : String} {base : List (UInt64 × Change)}
  {order extra seen : List (ι × UInt64)} {floor : ι → List (ι × UInt64)}

/-! ## Crashes -/

/-- What a crash may leave: the disk as it is, with any part of a frame that is being written. -/
inductive CrashImage (calls : ι → StoreCall) (σ : System ι) : Disk → Prop where
  | still : CrashImage calls σ σ.disk
  | cut {i : ι} {frame : ByteArray} {written : Nat} (hwrites : σ.Writes calls i frame)
      (hpart : written ≤ frame.size) :
      CrashImage calls σ (σ.store.log.breakOff σ.disk frame written).1

/-- At most one call, whose commit has not taken effect and which was not acknowledged. -/
def Pending (calls : ι → StoreCall) (σ : System ι) (extra : List (ι × UInt64)) : Prop :=
  extra = [] ∨ ∃ i seq b, extra = [(i, seq)] ∧ calls i = .perform b ∧ Absent σ.order i ∧
    ∀ answer, σ.stage i ≠ .returned (.ok answer)

theorem perform_of_batch (h : (calls i).batch.isReadOnly = false) : ∃ b, calls i = .perform b := by
  cases hcall : calls i with
  | perform b => exact ⟨b, rfl⟩
  | query q =>
      rw [hcall] at h
      cases h
  | close =>
      rw [hcall] at h
      cases h

/-- What a crash leaves of the file holds the commits that took effect, and at most one more. -/
theorem holds_of_crash (h : Backed calls base σ) (hordered : Ordered calls c floor σ)
    (hlast : Replay.lastOf 0 base = c.seq) (hroom : c.seq.toNat + σ.order.length < 2 ^ 64 - 1)
    (hcrash : CrashImage calls σ d₁) :
    ∃ extra torn, Pending calls σ extra ∧
      σ.store.log.Holds d₁ (base ++ commitsOf calls (σ.order ++ extra)) torn := by
  cases hcrash with
  | @cut i frame written hwrites hpart =>
      -- the frame that is cut is that of the call that is writing it
      rcases h.cut hordered hlast hroom hwrites hpart with ⟨extra, torn, hextra, hholds⟩
      refine ⟨extra, torn, ?_, hholds⟩
      rcases hextra with hnone | ⟨seq, b, hone, hcall⟩
      · exact .inl hnone
      · rcases hordered.writes hwrites with ⟨_, t, _, -, hstage, -, -, -, -, habsent⟩
        refine .inr ⟨i, seq, b, hone, hcall, habsent, ?_⟩
        rw [hstage]
        exact nofun
  | still =>
      cases h with
      | level hlevel hintact hholds =>
          refine ⟨[], .empty, .inl rfl, ?_⟩
          rw [List.append_nil]
          exact hholds
      | @ahead i t seq hlogged hintact hholds =>
          -- a commit is logged and has not taken effect
          rcases hordered.logged hlogged with ⟨habsent, hwrite, -, -⟩
          rcases perform_of_batch hwrite with ⟨b, hcall⟩
          refine ⟨[(i, seq)], .empty, .inr ⟨i, seq, b, rfl, hcall, habsent, ?_⟩, hholds⟩
          rw [hlogged]
          exact nofun
      | broken extra torn hlevel hbroken hextra hholds =>
          refine ⟨extra, torn, ?_, hholds⟩
          rcases hextra with hnone | ⟨i, seq, b, e, hone, hcall, hfailed⟩
          · exact .inl hnone
          · have habsent := hordered.known i
            rw [hfailed] at habsent
            refine .inr ⟨i, seq, b, hone, hcall, habsent, ?_⟩
            rw [hfailed]
            exact nofun

/-! ## Recovery -/

/-- What the answer to a call says if the call saw the effects of some calls. -/
def Shows (calls : ι → StoreCall) (c : Committed) (seen : List (ι × UInt64)) (answer : Answer) :
    StoreCall → Prop
  | .query q => q.answer (after calls c seen) = .ok answer
  | .perform b => answer = .values (b.readFrom (effect calls c.contents seen))
  | .close => True

/-- The commits that are found say all that was acknowledged and all that was read. -/
structure Recovered (calls : ι → StoreCall) (s : VersionedStore) (σ : System ι)
    (commits : List (UInt64 × Change)) (extra : List (ι × UInt64)) : Prop where
  /-- Readers see what all commits say, or all but the last one. -/
  visible : σ.store.committed.contents = (Committed.empty.applyAll commits).contents ∨
    σ.store.committed.contents = (Committed.empty.applyAll commits.dropLast).contents
  /-- What is found is the effect of whole batches. -/
  whole : (Committed.empty.applyAll commits).contents =
    effect calls s.committed.contents (σ.order ++ extra)
  once : ((σ.order ++ extra).map Prod.fst).Nodup
  pending : Pending calls σ extra
  acknowledged : ∀ i b answer, calls i = .perform b → b.isReadOnly = false →
    σ.stage i = .returned (.ok answer) → i ∈ σ.order.map Prod.fst
  /-- Whoever has read saw an earlier state, or the present one. -/
  observed : ∀ i answer, σ.stage i = .returned (.ok answer) →
    ∃ seen, seen <+: σ.order ∧ Shows calls s.committed seen answer (calls i)

theorem Ordered.observed {answer : Answer} (h : Ordered calls c floor σ)
    (hstage : σ.stage i = .returned (.ok answer)) :
    ∃ seen, seen <+: σ.order ∧ Shows calls c seen answer (calls i) := by
  have hknown := h.known i
  rw [hstage] at hknown
  simp only [Known] at hknown
  cases hcall : calls i with
  | close => exact ⟨σ.order, List.prefix_rfl, trivial⟩
  | query q =>
      rw [hcall] at hknown
      rcases hknown with ⟨-, seen, -, hseen, hanswer⟩
      exact ⟨seen, hseen, hanswer⟩
  | perform b =>
      rw [hcall] at hknown
      rcases hknown with ⟨t, hvalues, ⟨-, -, seen, -, hseen, ht⟩ | ⟨-, before, _, rest, hplace,
        seen, -, hseen, ht, -⟩⟩
      · refine ⟨seen, hseen, ?_⟩
        rw [hvalues, ht, valuesOf_after]
        rfl
      · refine ⟨seen, hseen.trans ?_, ?_⟩
        · rw [hplace]
          exact List.prefix_append ..
        · rw [hvalues, ht, valuesOf_after]
          rfl

theorem Pending.nodup (h : Pending calls σ extra) (hnodup : (σ.order.map Prod.fst).Nodup) :
    ((σ.order ++ extra).map Prod.fst).Nodup := by
  rcases h with rfl | ⟨i, seq, b, rfl, -, habsent, -⟩
  · rw [List.append_nil]
    exact hnodup
  · exact habsent.nodup_concat hnodup seq

/-- The commits that are found amount to the effects of the calls. -/
theorem recovered_of_ordered (hsynced : s.Synced d base)
    (hordered : Ordered calls s.committed floor σ) (hpending : Pending calls σ extra) :
    Recovered calls s σ (base ++ commitsOf calls (σ.order ++ extra)) extra := by
  have hcontents : ∀ order, (Committed.empty.applyAll (base ++ commitsOf calls order)).contents =
      effect calls s.committed.contents order := by
    intro order
    rw [Committed.applyAll_append, ← contents_after]
    exact (hsynced.agrees.applyAll (commitsOf calls order)).contents
  -- readers see what took effect
  have hvisible : σ.store.committed.contents = effect calls s.committed.contents σ.order := by
    rw [hordered.committed, contents_after]
  refine ⟨?_, hcontents _, hpending.nodup hordered.nodup, hpending, ?_, ?_⟩
  · rw [hvisible]
    rcases hpending with rfl | ⟨i, seq, b, rfl, -⟩
    · left
      rw [List.append_nil, hcontents]
    · right
      -- without the commit that is pending
      have hdrop : (base ++ commitsOf calls (σ.order ++ [(i, seq)])).dropLast =
          base ++ commitsOf calls σ.order := by
        simp [commitsOf, ← List.append_assoc]
      rw [hdrop, hcontents]
  · intro i b answer hcall hwrite hstage
    exact hordered.mem_of_acknowledged hcall hwrite hstage
  · intro i answer hstage
    exact hordered.observed hstage

/-! ## Any number of crashes -/

/-- A store that was opened on a fresh file, or again on what a crash has left. -/
inductive Opened (path : String) : VersionedStore → Disk → Prop where
  | fresh {d d' : Disk} {settings : StorageSettings} {s : VersionedStore} : d.IsFresh path →
      VersionedStore.openAt d path settings = (d', .ok s) → Opened path s d'
  | again {ι : Type} [DecidableEq ι] {calls : ι → StoreCall} {s s' : VersionedStore}
      {d d₁ d' : Disk} {settings : StorageSettings} {σ : System ι} : Opened path s d →
      Run calls (start s d) σ → s.committed.seq.toNat + σ.order.length < 2 ^ 64 - 1 →
      CrashImage calls σ d₁ → VersionedStore.openAt d₁ path settings = (d', .ok s') →
      Opened path s' d'

variable [DecidableEq ι]

/-- What a crash leaves can be opened as a log. -/
theorem openAt_of_crash (hsynced : s.Synced d base) (hrun : Run calls (start s d) σ)
    (hroom : s.committed.seq.toNat + σ.order.length < 2 ^ 64 - 1)
    (hcrash : CrashImage calls σ d₁) :
    ∃ d₂ log replay extra, CommitLog.openAt d₁ s.log.path = (d₂, .ok (log, replay)) ∧
      log.Holds d₂ replay.commits .empty ∧
      replay.commits = base ++ commitsOf calls (σ.order ++ extra) ∧ Pending calls σ extra := by
  have hordered := (Ordered.start calls s d).run hrun
  have hbacked := Backed.run hsynced hrun hroom
  rcases holds_of_crash hbacked hordered hsynced.lastOf_eq hroom hcrash with
    ⟨extra, torn, hpending, hholds⟩
  have hlog := hholds.openAt
  rw [hrun.log_path_eq] at hlog
  exact ⟨_, _, _, extra, hlog, hrun.log_path_eq ▸ hholds.opened, rfl, hpending⟩

theorem Opened.synced (h : Opened path s d) :
    ∃ commits, s.Synced d commits ∧ s.log.path = path := by
  induction h with
  | fresh hfresh hopen =>
      rcases VersionedStore.synced_of_isFresh hfresh hopen with ⟨hsynced, hpath, -⟩
      exact ⟨[], hsynced, hpath⟩
  | again _ hrun hroom hcrash hopen ih =>
      rcases ih with ⟨base, hsynced, rfl⟩
      rcases openAt_of_crash hsynced hrun hroom hcrash with
        ⟨d₂, log, replay, extra, hlog, hholds, -⟩
      rcases VersionedStore.synced_of_openAt hlog hholds hopen with ⟨commits, hsynced', hpath, -⟩
      exact ⟨commits, hsynced', hpath⟩

/-- After a crash at any moment of a run, the log is opened and says all that it has to. -/
theorem recovered_of_crash (hopened : Opened path s d) (hrun : Run calls (start s d) σ)
    (hroom : s.committed.seq.toNat + σ.order.length < 2 ^ 64 - 1)
    (hcrash : CrashImage calls σ d₁) :
    ∃ d₂ log replay extra, CommitLog.openAt d₁ path = (d₂, .ok (log, replay)) ∧
      Recovered calls s σ replay.commits extra := by
  rcases hopened.synced with ⟨base, hsynced, rfl⟩
  rcases openAt_of_crash hsynced hrun hroom hcrash with
    ⟨d₂, log, replay, extra, hlog, -, hcommits, hpending⟩
  refine ⟨d₂, log, replay, extra, hlog, ?_⟩
  rw [hcommits]
  exact recovered_of_ordered hsynced ((Ordered.start calls s d).run hrun) hpending

/-- The update of another key. -/
def secondBatch : Batch := .updating VersionedStore.secondKey "2"

theorem fits_secondBatch : secondBatch.change.Fits := VersionedStore.fits_updating (by decide)

/-- Two calls that update different keys, and one that looks at the first key. -/
def updateAndLook : Fin 3 → StoreCall
  | 0 => .perform firstBatch
  | 1 => .query (.value VersionedStore.firstKey)
  | 2 => .perform secondBatch

/-- The first update is acknowledged, its value is read, and the second update comes to the point
where it writes its frame. -/
theorem run_updateAndLook (d : Disk) :
    ∃ σ, Run updateAndLook (start .firstStore d) σ ∧
      σ.stage 0 = .returned (.ok (.values .empty)) ∧
      σ.stage 1 = .returned (.ok (.value (some "1"))) ∧
      σ.stage 2 = .validated σ.store.committed.view 2 ∧
      σ.store = VersionedStore.firstStore.committing firstBatch.change := by
  have hcarried : VersionedStore.firstStore.carryOut d (updateAndLook 0) =
      (VersionedStore.firstStore.committing firstBatch.change,
        d.append VersionedStore.firstStore.log.file (frameOf (1, firstBatch.change)).encoded,
        .ok (.values .empty)) := by
    rw [updateAndLook, VersionedStore.carryOut,
      VersionedStore.perform_fits rfl (by decide) rfl rfl fits_firstBatch]
    rfl
  rcases run_carryOut (i := 0) (σ := start .firstStore d) updateAndLook (fun _ => rfl) rfl with
    ⟨σ₁, hfirst, hended⟩
  rw [start, hcarried] at hended
  have hfree₁ : σ₁.Free := hended.free (fun _ => rfl)
  rcases run_carryOut (i := 1) updateAndLook hfree₁ (by rw [hended.stage]; rfl) with
    ⟨σ₂, hlook, hended'⟩
  have hasked : σ₁.store.carryOut σ₁.disk (updateAndLook 1) =
      (σ₁.store, σ₁.disk, .ok (.value (some "1"))) := by
    rw [hended.store]
    rfl
  rw [hasked] at hended'
  have hstage : σ₂.stage = Function.update (Function.update (fun _ => .waiting) 0
      (.returned (.ok (.values .empty)))) 1 (.returned (.ok (.value (some "1")))) := by
    rw [hended'.stage, hended.stage]
  have hstore : σ₂.store = VersionedStore.firstStore.committing firstBatch.change :=
    hended'.store.trans hended.store
  have hfree₂ : σ₂.Free := hended'.free hfree₁
  -- the second update is alone as well, until the crash
  have hstart : Step updateAndLook σ₂
      (σ₂.move 2 (.starting 10 (.described "no attempt was made"))) := by
    have hstep : Step updateAndLook σ₂ _ := .start (i := 2) rfl (by rw [hstage]; rfl)
    rwa [hstore] at hstep
  have hvalidated : Run updateAndLook
      (σ₂.move 2 (.starting 10 (.described "no attempt was made"))) _ :=
    run_validated rfl (hfree₂.move rfl) (stage_move _) (by rw [store_move, hstore]; rfl) rfl
  rw [move_move] at hvalidated
  refine ⟨_, (hfirst.trans hlook).trans (.head hstart hvalidated), ?_, ?_, ?_, ?_⟩
  · rw [stage_move_of_ne _ (by decide), hstage]
    rfl
  · rw [stage_move_of_ne _ (by decide), hstage]
    rfl
  · rw [stage_move, store_move, store_move, hstore]
    rfl
  · exact hstore

/-- A crash after five bytes of the frame of the second update.  The first one was acknowledged, and
what it put had been read. -/
theorem recovered_of_crash_five :
    ∃ (d d₁ d₂ : Disk) (σ : System (Fin 3)) (log : CommitLog) (replay : Replay)
      (extra : List (Fin 3 × UInt64)),
      VersionedStore.openAt .empty "store" .standard = (d, .ok .firstStore) ∧
        Run updateAndLook (start .firstStore d) σ ∧
        σ.stage 0 = .returned (.ok (.values .empty)) ∧
        σ.stage 1 = .returned (.ok (.value (some "1"))) ∧
        σ.Writes updateAndLook 2 (frameOf (2, secondBatch.change)).encoded ∧
        d₁ = (σ.store.log.breakOff σ.disk (frameOf (2, secondBatch.change)).encoded 5).1 ∧
        CommitLog.openAt d₁ "store" = (d₂, .ok (log, replay)) ∧
        Recovered updateAndLook .firstStore σ replay.commits extra := by
  rcases VersionedStore.openAt_firstStore with ⟨d, hopen⟩
  rcases run_updateAndLook d with ⟨σ, hrun, hacknowledged, hread, hstage, hstore⟩
  have hframe : Frame.encode? ⟨2, (σ.store.committed.view.write secondBatch).change.pack⟩ =
      some (frameOf (2, secondBatch.change)).encoded := by
    rw [change_write]
    exact CommitLog.encode?_frameOf fits_secondBatch
  have hwrites : σ.Writes updateAndLook 2 (frameOf (2, secondBatch.change)).encoded :=
    ⟨secondBatch, _, _, rfl, hstage, by rw [hstore]; rfl, hframe⟩
  have hcrash : CrashImage updateAndLook σ _ := .cut hwrites (show 5 ≤ _ by decide)
  -- three calls commit at most three times
  have hlength := ((Ordered.start updateAndLook _ _).run hrun).nodup.length_le_card
  rw [List.length_map, Fintype.card_fin] at hlength
  have hseq : VersionedStore.firstStore.committed.seq.toNat = 0 := rfl
  rcases recovered_of_crash (.fresh VersionedStore.isFresh_empty hopen) hrun (by omega) hcrash with
    ⟨d₂, log, replay, extra, hlog, hrecovered⟩
  exact ⟨d, _, d₂, σ, log, replay, extra, hopen, hrun, hacknowledged, hread, hwrites, rfl, hlog,
    hrecovered⟩

end System
end GuardedStore
