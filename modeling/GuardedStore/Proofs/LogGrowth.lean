import GuardedStore.Proofs.SequenceNumbers

/-!
# LogGrowth — the file of a log grows frame by frame

Whatever commits the file of a log held when the store was opened, and however many calls have come
since, the file holds the frames of those commits, and behind them the frames of the commits that
took effect, in their order (`Frames`).  At most one more frame follows, of a call that is about to
let its commit take effect, or the beginning of one that could not be written (`Filed`).  So whoever
reads the file finds a frame for each commit that took effect (`Filed.exists_frame`).

Nothing is asked of the numbers of the commits, and nothing of what the log held before.
-/

namespace GuardedStore
namespace System

open Versioned Log

variable {ι : Type} {calls : ι → StoreCall} {c : Committed} {σ σ' : System ι} {s : VersionedStore}
  {d : Disk} {i : ι} {b : Batch} {seq : UInt64} {t : Transaction} {frame rest : ByteArray}
  {base : List (UInt64 × Change)} {order : List (ι × UInt64)} {floor : ι → List (ι × UInt64)}
  {stage next : Stage}

/-- The frames of some commits, the frames of those of calls behind them, and then some bytes. -/
def Frames (calls : ι → StoreCall) (base : List (UInt64 × Change)) (order : List (ι × UInt64))
    (rest : ByteArray) (content : Content) : Prop :=
  ∃ bytes, content = .bytes (bytes ++ rest) ∧ Records bytes (base ++ commitsOf calls order)

namespace Frames

variable {content : Content}

/-- A frame is added behind the others. -/
theorem concat (h : Frames calls base order .empty content) (hcall : calls i = .perform b)
    (hfits : b.change.Fits) (seq : UInt64) :
    Frames calls base (order ++ [(i, seq)]) .empty
      (content.append (frameOf (seq, b.change)).encoded) := by
  rcases h with ⟨bytes, rfl, hrecords⟩
  refine ⟨bytes ++ (frameOf (seq, b.change)).encoded, ?_, ?_⟩
  · rw [ByteArray.append_empty, ByteArray.append_empty]
    rfl
  · rw [commitsOf_append, commitsOf_single hcall, ← List.append_assoc]
    exact hrecords.append hfits

/-- Whatever is added behind the frames, they stay what they are. -/
theorem add (h : Frames calls base order .empty content) (rest : ByteArray) :
    Frames calls base order rest (content.append rest) := by
  rcases h with ⟨bytes, rfl, hrecords⟩
  refine ⟨bytes, ?_, hrecords⟩
  rw [ByteArray.append_empty]
  rfl

/-- Each of the commits has a frame that says it, and that is read where it stands. -/
theorem exists_frame (h : Frames calls base order rest content) (hcall : calls i = .perform b)
    (hmem : (i, seq) ∈ order) :
    ∃ (f : Frame) (before behind : ByteArray), f.Writes (seq, b.change) ∧
      content = .bytes (before ++ f.encoded ++ behind) ∧
      (f, (before ++ f.encoded).size) ∈
        (Scan.run (before ++ f.encoded ++ behind) headerSize).frames := by
  rcases h with ⟨bytes, rfl, hrecords⟩
  have hcommit : (seq, b.change) ∈ commitsOf calls order := by
    refine List.mem_map.2 ⟨(i, seq), hmem, ?_⟩
    simp only [hcall, StoreCall.batch]
  rcases hrecords.exists_frame (List.mem_append_right _ hcommit) rest with
    ⟨f, before, behind, hwrites, hbytes, hread⟩
  exact ⟨f, before, behind, hwrites, by rw [hbytes], hread⟩

end Frames

/-! ## The invariant -/

/-- What the file of the log holds: at most one commit is ahead of those that took effect, and
nothing is behind the frames unless the log is broken. -/
inductive Filed (calls : ι → StoreCall) (base : List (UInt64 × Change)) (σ : System ι) : Prop where
  | level (rest : ByteArray) (hlevel : ∀ i, (σ.stage i).ahead = false)
      (hclean : σ.store.log.poisoned = false → rest = .empty)
      (hframes : Frames calls base σ.order rest (σ.disk.content σ.store.log.file))
  | ahead {i : ι} {t : Transaction} {seq : UInt64} (hstage : σ.stage i = .logged t seq)
      (hintact : σ.store.log.poisoned = false)
      (hframes : Frames calls base (σ.order ++ [(i, seq)]) .empty
        (σ.disk.content σ.store.log.file))

namespace Filed

theorem start {path : String} (h : s.Sequenced d path base) : Filed calls base (start s d) := by
  rcases h.records with ⟨bytes, hcontent, hrecords⟩
  refine .level .empty (fun _ => rfl) (fun _ => rfl) ⟨bytes, ?_, ?_⟩
  · rw [ByteArray.append_empty]
    exact hcontent
  · rwa [System.start, commitsOf, List.map_nil, List.append_nil]

/-- Each commit that took effect has its frame in the file. -/
theorem exists_frame (h : Filed calls base σ) (hcall : calls i = .perform b)
    (hmem : (i, seq) ∈ σ.order) :
    ∃ (f : Frame) (before behind : ByteArray), f.Writes (seq, b.change) ∧
      σ.disk.content σ.store.log.file = .bytes (before ++ f.encoded ++ behind) ∧
      (f, (before ++ f.encoded).size) ∈
        (Scan.run (before ++ f.encoded ++ behind) headerSize).frames := by
  cases h with
  | level rest _ _ hframes => exact hframes.exists_frame hcall hmem
  | ahead _ _ hframes => exact hframes.exists_frame hcall (List.mem_append_left _ hmem)

/-- While a call is about to log its commit, the file ends in the frame of the last commit. -/
theorem level_of_validated (h : Filed calls base σ) (hordered : Ordered calls c floor σ)
    (hstage : σ.stage i = .validated t seq) (hintact : σ.store.log.poisoned = false) :
    (∀ j, (σ.stage j).ahead = false) ∧
      Frames calls base σ.order .empty (σ.disk.content σ.store.log.file) := by
  cases h with
  | level rest hlevel hclean hframes =>
      rw [hclean hintact] at hframes
      exact ⟨hlevel, hframes⟩
  | ahead hlogged => exact absurd hlogged (hordered.not_logged_of_validated hstage)

variable [DecidableEq ι]

/-- A step of a call that has nothing to do with the log. -/
theorem move (h : Filed calls base σ) (hstage : σ.stage i = stage) (hlog : s.log = σ.store.log)
    (hold : stage.ahead = false) (hnext : next.ahead = false) :
    Filed calls base (System.move ⟨s, σ.disk, σ.stage, σ.order⟩ i next) := by
  cases h with
  | level rest hlevel hclean hframes =>
      refine .level rest (Backed.ahead_move hlevel hnext) ?_ ?_
      · rw [store_move, hlog]
        exact hclean
      · rw [store_move, hlog]
        exact hframes
  | @ahead j t seq hlogged hintact hframes =>
      have hj : j ≠ i := by
        rintro rfl
        rw [← hstage, hlogged] at hold
        cases hold
      refine .ahead (i := j) ((stage_move_of_ne next hj).trans hlogged) ?_ ?_
      · rw [store_move, hlog, hintact]
      · rw [store_move, hlog]
        exact hframes

/-- A call adds its commit to the log. -/
theorem log (h : Filed calls base σ) (hordered : Ordered calls c floor σ)
    (hcall : calls i = .perform b) (hstage : σ.stage i = .validated t seq)
    (hlog : σ.store.logCommit σ.disk seq (t.write b) = .ok (s, d)) :
    Filed calls base (System.move ⟨s, d, σ.stage, σ.order⟩ i (.logged t seq)) := by
  rcases hordered.appends hstage hlog with ⟨log, happend, hs⟩
  rcases CommitLog.append_ok happend with ⟨hintact, hfits, hd, hnew⟩
  rcases h.level_of_validated hordered hstage hintact with ⟨-, hframes⟩
  refine .ahead (stage_move _) ?_ ?_
  · rw [store_move, hs, hnew]
    exact hintact
  · have hadded := hframes.concat hcall hfits seq
    rw [store_move, order_move, disk_move, hs, hnew, hd, Disk.append, Disk.content_setContent]
    exact hadded

/-- A frame could not be written. -/
theorem breakOff (h : Filed calls base σ) (hordered : Ordered calls c floor σ)
    (hwrites : σ.Writes calls i frame) (written : Nat) (e : StoreError) :
    Filed calls base
      (System.move ⟨{ σ.store with log := (σ.store.log.breakOff σ.disk frame written).2 },
        (σ.store.log.breakOff σ.disk frame written).1, σ.stage, σ.order⟩ i
          (.returned (.error e))) := by
  rcases hwrites with ⟨b, t, seq, -, hstage, hintact, -⟩
  rcases h.level_of_validated hordered hstage hintact with ⟨hlevel, hframes⟩
  refine .level (frame.extract 0 written) (Backed.ahead_move hlevel rfl) nofun ?_
  have hadded := hframes.add (frame.extract 0 written)
  rw [store_move, disk_move, CommitLog.breakOff, Disk.append, Disk.content_setContent]
  exact hadded

/-- The commit that is ahead takes effect. -/
theorem apply (h : Filed calls base σ) (hordered : Ordered calls c floor σ)
    (hstage : σ.stage i = .logged t seq) (hlog : s.log = σ.store.log) :
    Filed calls base
      (System.move ⟨s, σ.disk, σ.stage, σ.order ++ [(i, seq)]⟩ i (.applied t)) := by
  have hin : (σ.stage i).inside = true := by rw [hstage]; rfl
  cases h with
  | level _ hlevel =>
      have hnot := hlevel i
      rw [hstage] at hnot
      cases hnot
  | @ahead j t' seq' hlogged hintact hframes =>
      -- the call that is ahead is the one in the section
      rcases hordered.eq_of_logged hstage hlogged with ⟨rfl, rfl⟩
      refine .level .empty ?_ (fun _ => rfl) ?_
      · exact Backed.level_of_alone hordered hin rfl
      · rw [store_move, hlog]
        exact hframes

/-- Every step lets the file grow by whole frames, unless the writing of one breaks off. -/
theorem step (h : Filed calls base σ) (hordered : Ordered calls c floor σ)
    (hstep : Step calls σ σ') : Filed calls base σ' := by
  cases hstep.logStep with
  | move hstage hlog hold _ hnext => exact h.move hstage hlog hold hnext
  | log hcall hstage hlog => exact h.log hordered hcall hstage hlog
  | breakOff e hwrites _ => exact h.breakOff hordered hwrites _ e
  | apply hstage hlog => exact h.apply hordered hstage hlog

theorem run {path : String} (hsequenced : s.Sequenced d path base)
    (hrun : Run calls (System.start s d) σ) : Filed calls base σ := by
  induction hrun with
  | refl => exact .start hsequenced
  | tail hrun hstep ih => exact ih.step ((Ordered.start calls s d).run hrun) hstep

end Filed
end System
end GuardedStore
