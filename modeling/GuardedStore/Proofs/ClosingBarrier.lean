import GuardedStore.Proofs.CutLogs
import GuardedStore.Proofs.Histories
import GuardedStore.Proofs.LogGrowth
import GuardedStore.Proofs.Serializability

/-!
# ClosingBarrier — nothing comes after closing

A store is closed in the section that only one call is in at a time, and there, too, a call that
commits looks once more whether the store is open.  So when a call to close has returned, whatever
the others do, nothing is committed and nothing is written any more (`Still`), and a call that comes
later, or that had begun and is not in the section, can only be refused (`Doomed`).

What a stage says of its call and of the store is kept by each step (`Truthful.step`).
-/

namespace GuardedStore
namespace System

open Versioned Log

variable {ι : Type} {calls : ι → StoreCall} {c : Committed} {σ σ' : System ι}
  {s s' : VersionedStore} {d d' : Disk} {i j : ι} {a m : ℕ} {b : Batch} {t : Transaction}
  {order : List (ι × UInt64)} {floor : ι → List (ι × UInt64)} {stage next : Stage} {looked : Bool}

/-! ## What stages say -/

/-- What a stage says of the call, and of whether the store is closed. -/
def Told (call : StoreCall) (closed : Bool) : Stage → Prop
  | .waiting => True
  | .asked | .reading => ∃ q, call = .query q
  | .starting .. | .admitted _ | .begun .. | .entered .. | .applied _ => ∃ b, call = .perform b
  | .validated .. | .logged .. => (∃ b, call = .perform b) ∧ closed = false
  | .closing | .shutting => call = .close
  | .shut => call = .close ∧ closed = true
  | .returned _ => call = .close → closed = true

/-- What the stages say is true. -/
def Truthful (calls : ι → StoreCall) (σ : System ι) : Prop :=
  ∀ i, Told (calls i) σ.store.closed (σ.stage i)

/-- The store is closed, and what there was is still there. -/
structure Still (σ σ' : System ι) : Prop where
  closed : σ'.store.closed = true
  committed : σ'.store.committed = σ.store.committed
  disk : σ'.disk = σ.disk
  order : σ'.order = σ.order

theorem Still.of_closed (h : σ.store.closed = true) : Still σ σ := ⟨h, rfl, rfl, rfl⟩

theorem Still.trans {σ'' : System ι} (h : Still σ σ') (h' : Still σ' σ'') : Still σ σ'' :=
  ⟨h'.closed, h'.committed.trans h.committed, h'.disk.trans h.disk, h'.order.trans h.order⟩

variable [DecidableEq ι]

namespace Truthful

theorem move (h : Truthful calls σ) (hclosed : s.closed = σ.store.closed)
    (hstage : σ.stage i = stage)
    (hnext : Told (calls i) σ.store.closed stage → Told (calls i) σ.store.closed next) :
    Truthful calls (System.move ⟨s, d, σ.stage, order⟩ i next) := by
  intro j
  rw [store_move, hclosed]
  exact forall_stage_move (P := fun j => Told (calls j) σ.store.closed) (hnext (hstage ▸ h i))
    (fun j _ => h j) j

theorem told_of_query {call : StoreCall} {closed : Bool} (answer : Except StoreError Answer)
    (h : ∃ q, call = .query q) : Told call closed (.returned answer) := by
  rcases h with ⟨q, rfl⟩
  exact nofun

theorem told_of_perform {call : StoreCall} {closed : Bool} (answer : Except StoreError Answer)
    (h : ∃ b, call = .perform b) : Told call closed (.returned answer) := by
  rcases h with ⟨b, rfl⟩
  exact nofun

/-- A store that gets closed has no call in its section but the one that closes it. -/
theorem shut (h : Truthful calls σ) (hordered : Ordered calls c floor σ)
    (hstage : σ.stage i = .shutting) :
    Truthful calls (({ σ with store := σ.store.close } : System ι).move i .shut) := by
  have hin : (σ.stage i).inside = true := by rw [hstage]; rfl
  have hclose : Told (calls i) σ.store.closed .shutting := hstage ▸ h i
  refine forall_stage_move (P := fun j => Told (calls j) true) ⟨hclose, rfl⟩ ?_
  intro j hj
  have htold := h j
  cases hother : σ.stage j with
  | validated t seq => exact absurd (hordered.alone j i (by rw [hother]; rfl) hin) hj
  | logged t seq => exact absurd (hordered.alone j i (by rw [hother]; rfl) hin) hj
  | shut =>
      rw [hother] at htold
      exact ⟨htold.1, rfl⟩
  | returned answer => exact fun _ => rfl
  | _ =>
      rw [hother] at htold
      exact htold

/-- Every step keeps what stages say. -/
theorem step (h : Truthful calls σ) (hordered : Ordered calls c floor σ)
    (hstep : Step calls σ σ') : Truthful calls σ' := by
  cases hstep with
  | ask hcall hstage => exact h.move rfl hstage (fun _ => ⟨_, hcall⟩)
  | allow hstage hopen => exact h.move rfl hstage id
  | deny hstage hclosed => exact h.move rfl hstage (told_of_query _)
  | answer hcall hstage => exact h.move rfl hstage (told_of_query _)
  | start hcall hstage => exact h.move rfl hstage (fun _ => ⟨_, hcall⟩)
  | abandon hstage => exact h.move rfl hstage (told_of_perform _)
  | approve hstage hopen => exact h.move rfl hstage id
  | refuse hstage hclosed => exact h.move rfl hstage (told_of_perform _)
  | begin hstage => exact h.move rfl hstage id
  | finish hcall hstage hread => exact h.move rfl hstage (told_of_perform _)
  | enter hcall hstage hwrite hfree => exact h.move rfl hstage id
  | validate hcall hstage hvalid =>
      have hopen := (VersionedStore.validate_ok hvalid).1
      exact h.move rfl hstage (fun hperform => ⟨hperform, hopen⟩)
  | retry hcall hstage hconflict => exact h.move rfl hstage id
  | reject hcall hstage hinvalid hfinal => exact h.move rfl hstage (told_of_perform _)
  | log hcall hstage hlog =>
      rcases VersionedStore.logCommit_inv hlog with ⟨log, -, rfl⟩
      exact h.move rfl hstage id
  | refuseLog hcall hstage hlog =>
      exact h.move rfl hstage (fun htold => told_of_perform _ htold.1)
  | breakOff hwrites hpart =>
      rcases hwrites with ⟨b, t, seq, -, hstage, -, -⟩
      exact h.move rfl hstage (fun htold => told_of_perform _ htold.1)
  | apply hcall hstage => exact h.move rfl hstage And.left
  | leave hcall hstage => exact h.move rfl hstage (told_of_perform _)
  | knock hcall hstage => exact h.move rfl hstage (fun _ => hcall)
  | enterClosing hstage hfree => exact h.move rfl hstage id
  | shut hstage => exact h.shut hordered hstage
  | leaveClosing hcall hstage => exact h.move rfl hstage (fun htold _ => htold.2)
  | failClosing hstage => exact h.move rfl hstage (fun htold _ => htold.2)

end Truthful

/-! ## Nothing is committed any more -/

/-- At a closed store no call is about to log its commit, or to let it take effect. -/
theorem still_step (h : Truthful calls σ)
    (hclosed : σ.store.closed = true) (hstep : Step calls σ σ') : Still σ σ' := by
  have hvalidated : ∀ {j t seq}, σ.stage j ≠ .validated t seq := by
    intro j t seq hstage
    have htold := h j
    rw [hstage, hclosed] at htold
    cases htold.2
  have hlogged : ∀ {j t seq}, σ.stage j ≠ .logged t seq := by
    intro j t seq hstage
    have htold := h j
    rw [hstage, hclosed] at htold
    cases htold.2
  cases hstep with
  | log hcall hstage hlog => exact absurd hstage hvalidated
  | breakOff hwrites hpart =>
      rcases hwrites with ⟨b, t, seq, -, hstage, -, -⟩
      exact absurd hstage hvalidated
  | apply hcall hstage => exact absurd hstage hlogged
  | shut hstage => exact ⟨rfl, rfl, rfl, rfl⟩
  | _ => exact ⟨hclosed, rfl, rfl, rfl⟩

/-! ## Calls that can only be refused -/

/-- What a call can be at that finds the store closed, whether or not it has looked at what has been
committed before. -/
def Doomed (calls : ι → StoreCall) (i : ι) (looked : Bool) : Stage → Prop
  | .waiting | .asked | .starting (_ + 1) _ => looked = false
  | .begun _ t | .entered _ t => looked = true ∧ (t.write (calls i).batch).isReadOnly = false
  | .returned answer => answer = .error .closed
  | _ => False

theorem doomed_move (h : Doomed calls i looked (σ.stage i)) (hstage : σ.stage j = stage)
    (hnext : j = i → Doomed calls i looked stage → Doomed calls i looked next) :
    Doomed calls i looked ((System.move ⟨s, d, σ.stage, order⟩ j next).stage i) := by
  by_cases hj : i = j
  · subst hj
    rw [stage_move]
    exact hnext rfl (hstage ▸ h)
  · rw [stage_move_of_ne next hj]
    exact h

theorem doomed_step (hclosed : σ.store.closed = true) (hattempts : 0 < σ.store.maxAttempts)
    (hdata : calls i ≠ .close) (h : Doomed calls i looked (σ.stage i)) (hstep : Step calls σ σ') :
    Doomed calls i looked (σ'.stage i) := by
  have hshut := VersionedStore.ensureOpen_of_closed hclosed
  cases hstep with
  | ask hcall hstage => exact doomed_move h hstage (fun _ => id)
  | allow hstage hopen =>
      rw [hshut] at hopen
      cases hopen
  | deny hstage hrefused =>
      rw [hshut] at hrefused
      cases hrefused
      exact doomed_move h hstage (fun _ _ => rfl)
  | answer hcall hstage => exact doomed_move h hstage (fun _ => False.elim)
  | start hcall hstage =>
      refine doomed_move h hstage ?_
      intro _ hlate
      rcases Nat.exists_eq_succ_of_ne_zero hattempts.ne' with ⟨left, hleft⟩
      rw [hleft]
      exact hlate
  | abandon hstage => exact doomed_move h hstage (fun _ => False.elim)
  | approve hstage hopen =>
      rw [hshut] at hopen
      cases hopen
  | refuse hstage hrefused =>
      rw [hshut] at hrefused
      cases hrefused
      exact doomed_move h hstage (fun _ _ => rfl)
  | begin hstage => exact doomed_move h hstage (fun _ => False.elim)
  | finish hcall hstage hread =>
      refine doomed_move h hstage ?_
      rintro rfl ⟨-, hwrite⟩
      rw [hcall] at hwrite
      exact absurd hread (by rw [StoreCall.batch] at hwrite; rw [hwrite]; exact Bool.false_ne_true)
  | enter hcall hstage hwrite hfree => exact doomed_move h hstage (fun _ => id)
  | validate hcall hstage hvalid =>
      have hopen := (VersionedStore.validate_ok hvalid).1
      rw [hclosed] at hopen
      cases hopen
  | retry hcall hstage hconflict =>
      rw [VersionedStore.validate, hshut] at hconflict
      cases hconflict
  | reject hcall hstage hinvalid hfinal =>
      rw [VersionedStore.validate, hshut] at hinvalid
      cases hinvalid
      exact doomed_move h hstage (fun _ _ => rfl)
  | log hcall hstage hlog => exact doomed_move h hstage (fun _ => False.elim)
  | refuseLog hcall hstage hlog => exact doomed_move h hstage (fun _ => False.elim)
  | breakOff hwrites hpart =>
      rcases hwrites with ⟨b, t, seq, -, hstage, -, -⟩
      exact doomed_move h hstage (fun _ => False.elim)
  | apply hcall hstage => exact doomed_move h hstage (fun _ => False.elim)
  | leave hcall hstage => exact doomed_move h hstage (fun _ => False.elim)
  | knock hcall hstage =>
      refine doomed_move h hstage ?_
      rintro rfl
      exact absurd hcall hdata
  | enterClosing hstage hfree => exact doomed_move h hstage (fun _ => False.elim)
  | shut hstage => exact doomed_move h hstage (fun _ => False.elim)
  | leaveClosing hcall hstage => exact doomed_move h hstage (fun _ => False.elim)
  | failClosing hstage => exact doomed_move h hstage (fun _ => False.elim)

/-- The call has been refused because the store is closed, or it can end in that way. -/
def Refused (calls : ι → StoreCall) (σ : System ι) (i : ι) : Prop :=
  σ.stage i = .returned (.error .closed) ∨ CanEnd calls σ i (σ.store, σ.disk, .error .closed)

theorem refused_of_doomed (hclosed : σ.store.closed = true) (hattempts : 0 < σ.store.maxAttempts)
    (hdata : calls i ≠ .close) (htrue : Truthful calls σ) (h : Doomed calls i looked (σ.stage i))
    (hfree : looked = true → ∀ j, j ≠ i → (σ.stage j).inside = false) : Refused calls σ i := by
  have hshut := VersionedStore.ensureOpen_of_closed hclosed
  have hinvalid : ∀ t, σ.store.validate t = .error .closed := by
    intro t
    rw [VersionedStore.validate, hshut]
  have hfinal : ∀ c, StoreError.closed ≠ .storageConflict c := by
    intro c hc
    cases hc
  have htold := htrue i
  cases hstage : σ.stage i with
  | waiting =>
      right
      cases hcall : calls i with
      | query q =>
          have hasked : CanEnd calls σ i (σ.store, σ.disk, σ.store.ask q) :=
            canEnd_query hcall hstage
          rwa [VersionedStore.ask_of_closed hshut] at hasked
      | perform b =>
          rcases Nat.exists_eq_succ_of_ne_zero hattempts.ne' with ⟨left, hleft⟩
          refine .step (.start hcall hstage) ?_
          rw [hleft]
          exact .last (.refuse (stage_move _) hshut)
      | close => exact absurd hcall hdata
  | asked => exact .inr (.last (.deny hstage hshut))
  | starting left last =>
      rw [hstage] at h
      cases left with
      | zero => exact h.elim
      | succ left => exact .inr (.last (.refuse hstage hshut))
  | begun left t =>
      rw [hstage] at h htold
      rcases h with ⟨hlooked, hwrite⟩
      rcases htold with ⟨b, hcall⟩
      rw [hcall] at hwrite
      -- nobody is in the section, so the call enters it and finds the store closed
      have hout : σ.Free := by
        intro j
        by_cases hj : j = i
        · rw [hj, hstage]
          rfl
        · exact hfree hlooked j hj
      right
      refine .step (.enter hcall hstage hwrite hout) ?_
      exact .last (.reject hcall (stage_move _) (hinvalid _) hfinal)
  | entered left t =>
      rw [hstage] at htold
      rcases htold with ⟨b, hcall⟩
      exact .inr (.last (.reject hcall hstage (hinvalid _) hfinal))
  | returned answer =>
      rw [hstage] at h
      left
      rw [hstage, show answer = .error .closed from h]
  | _ =>
      rw [hstage] at h
      exact h.elim

/-! ## The barrier -/

namespace History

theorem truthful (h : History calls (start s d)) (m : ℕ) : Truthful calls (h.state m) := by
  induction m with
  | zero =>
      rw [h.begins]
      exact fun _ => trivial
  | succ m ih =>
      rcases h.goes m with hsame | hstep
      · rw [hsame]
        exact ih
      · exact ih.step (h.ordered m) hstep

/-- After the store has been closed, everything stays as it is. -/
theorem still (h : History calls (start s d)) (hclosed : (h.state a).store.closed = true)
    (ham : a ≤ m) : Still (h.state a) (h.state m) := by
  induction ham with
  | refl => exact .of_closed hclosed
  | @step m _ ih =>
      rcases h.goes m with hsame | hstep
      · rw [hsame]
        exact ih
      · exact ih.trans (still_step (h.truthful m) ih.closed hstep)

theorem doomed (h : History calls (start s d)) (hattempts : 0 < s.maxAttempts)
    (hclosed : (h.state a).store.closed = true) (hdata : calls i ≠ .close)
    (hdoomed : Doomed calls i looked ((h.state a).stage i)) (ham : a ≤ m) :
    Doomed calls i looked ((h.state m).stage i) := by
  induction ham with
  | refl => exact hdoomed
  | @step m ham ih =>
      rcases h.goes m with hsame | hstep
      · rw [hsame]
        exact ih
      · have hattempts' : 0 < (h.state m).store.maxAttempts := by
          rw [h.maxAttempts_eq]
          exact hattempts
        exact doomed_step (h.still hclosed ham).closed hattempts' hdata ih hstep

end History

/-- Closing is a barrier. -/
structure Barrier (h : History calls (start s d)) : Prop where
  /-- Once a call to close has returned, with any answer, the store is closed, and what has been
  committed and the disk, the log included, stay as they are. -/
  still : ∀ i a answer, calls i = .close → (h.state a).stage i = .returned answer →
    ∀ m, a ≤ m → Still (h.state a) (h.state m)
  /-- A call that writes, and that has looked at what had been committed and is not in the section
  when the store is closed, gets no other answer than that, and nothing is written for it. -/
  caught : ∀ i b a left t, calls i = .perform b → b.isReadOnly = false →
    (h.state a).store.closed = true → (h.state a).stage i = .begun left t →
      ∀ m, a ≤ m → Still (h.state a) (h.state m) ∧
        (∀ answer, (h.state m).stage i = .returned answer → answer = .error .closed) ∧
        ((∀ j, j ≠ i → ((h.state m).stage j).inside = false) → Refused calls (h.state m) i)
  /-- A call that comes when a call to close has returned gets no other answer either. -/
  late : ∀ i j a answer, calls j = .close → (h.state a).stage j = .returned answer →
    calls i ≠ .close → (h.state a).stage i = .waiting →
      ∀ m, a ≤ m →
        (∀ answer, (h.state m).stage i = .returned answer → answer = .error .closed) ∧
        Refused calls (h.state m) i
  /-- A batch that writes and that was acknowledged has committed, and one of the frames that are read
  from the file of the log, from behind the header on, says what it changes. -/
  acknowledged : ∀ i b m answer, calls i = .perform b → b.isReadOnly = false →
    (h.state m).stage i = .returned (.ok answer) →
      ∃ (seq : UInt64) (f : Frame) (before behind : ByteArray), (i, seq) ∈ (h.state m).order ∧
        f.Writes (seq, b.change) ∧
        (h.state m).disk.content (h.state m).store.log.file =
          .bytes (before ++ f.encoded ++ behind) ∧
        (f, (before ++ f.encoded).size) ∈
          (Scan.run (before ++ f.encoded ++ behind) headerSize).frames

/-- Closing is a barrier for all calls at a store that was opened, whatever turns they take. -/
theorem barrier_of_openAt {d₀ : Disk} {path : String} {settings : StorageSettings}
    (hopen : VersionedStore.openAt d₀ path settings = (d, .ok s)) (h : History calls (start s d)) :
    Barrier h := by
  have hattempts := (VersionedStore.ready_of_openAt hopen).2
  have hattempts' : ∀ m, 0 < (h.state m).store.maxAttempts := by
    intro m
    rw [h.maxAttempts_eq]
    exact hattempts
  have hclosed : ∀ i a answer, calls i = .close → (h.state a).stage i = .returned answer →
      (h.state a).store.closed = true := by
    intro i a answer hcall hstage
    have htold := h.truthful a i
    rw [hstage] at htold
    exact htold hcall
  have hanswer : ∀ i m (looked : Bool) answer, Doomed calls i looked ((h.state m).stage i) →
      (h.state m).stage i = .returned answer → answer = .error .closed := by
    intro i m looked answer hdoomed hstage
    rw [hstage] at hdoomed
    exact hdoomed
  refine ⟨?_, ?_, ?_, ?_⟩
  · intro i a answer hcall hstage m ham
    exact h.still (hclosed i a answer hcall hstage) ham
  · intro i b a left t hcall hwrite hshut hstage m ham
    have hdata : calls i ≠ .close := by
      rw [hcall]
      exact nofun
    have hbegun : Doomed calls i true ((h.state a).stage i) := by
      have hknown := (h.ordered a).known i
      rw [hstage] at hknown ⊢
      rcases hknown with ⟨-, seen, -, -, ht⟩
      exact ⟨rfl, by rw [ht, isReadOnly_write, hcall]; exact hwrite⟩
    have hstill := h.still hshut ham
    have hdoomed := h.doomed hattempts hshut hdata hbegun ham
    refine ⟨hstill, fun answer => hanswer i m true answer hdoomed, ?_⟩
    intro hfree
    exact refused_of_doomed hstill.closed (hattempts' m) hdata (h.truthful m) hdoomed
      (fun _ => hfree)
  · intro i j a answer hcall hstage hdata hwaiting m ham
    have hshut := hclosed j a answer hcall hstage
    have hcome : Doomed calls i false ((h.state a).stage i) := by
      rw [hwaiting]
      rfl
    have hdoomed := h.doomed hattempts hshut hdata hcome ham
    refine ⟨fun answer => hanswer i m false answer hdoomed, ?_⟩
    exact refused_of_doomed (h.still hshut ham).closed (hattempts' m) hdata (h.truthful m) hdoomed
      nofun
  · intro i b m answer hcall hwrite hstage
    rcases VersionedStore.sequenced_of_openAt hopen with ⟨base, hsequenced, -⟩
    have hrun := h.run (Nat.zero_le m)
    rw [h.begins] at hrun
    have hfiled := Filed.run hsequenced hrun
    have hmem := (h.ordered m).mem_of_acknowledged hcall hwrite hstage
    rcases List.mem_map.1 hmem with ⟨⟨i', seq⟩, hplace, rfl⟩
    rcases hfiled.exists_frame hcall hplace with ⟨f, before, behind, hwrites, hbytes, hread⟩
    exact ⟨seq, f, before, behind, hplace, hwrites, hbytes, hread⟩

/-- A call that updates a key, and a call to close. -/
def updateAndClose : Bool → StoreCall
  | true => .perform firstBatch
  | false => .close

/-- The store gets closed while the other call is about to enter the section. -/
theorem barrier_of_begun :
    ∃ (d : Disk) (h : History updateAndClose (start .firstStore d)) (m : ℕ),
      VersionedStore.openAt .empty "store" .standard = (d, .ok .firstStore) ∧
        (h.state m).stage true = .begun 9 Committed.empty.view ∧
        (h.state m).stage false = .returned (.ok .done) ∧
        (h.state m).store.closed = true ∧ Barrier h := by
  rcases VersionedStore.openAt_firstStore with ⟨d, hopen⟩
  have hbegun : Run updateAndClose (start .firstStore d)
      ((start .firstStore d).move true (.begun 9 Committed.empty.view)) :=
    run_first rfl rfl rfl rfl
  have hfree : ((start .firstStore d).move true (.begun 9 Committed.empty.view)).Free :=
    Free.move (fun _ => rfl) rfl
  rcases run_carryOut (i := false) updateAndClose hfree rfl with ⟨σ, hclose, hended⟩
  rcases History.exists_of_run (hbegun.trans hclose) with ⟨h, m, hm⟩
  refine ⟨d, h, m, hopen, ?_, ?_, ?_, barrier_of_openAt hopen h⟩
  · rw [hm, hended.stage]
    rfl
  · rw [hm, hended.stage]
    rfl
  · rw [hm, hended.store]
    rfl

end System
end GuardedStore
