import GuardedStore.Proofs.Attempts
import GuardedStore.Proofs.Opening

/-!
# Performing — batches that come one after the other

A store that is worked on by one call after the other stays `Synced`: a batch that writes and fits a
frame adds its change to the log and to what is in memory, and any other one leaves both as they are
(`Synced.perform`).  So after any number of batches the log holds the changes of those that were
accepted, in their order and with consecutive numbers (`Synced.performAll`).
-/

namespace GuardedStore
namespace VersionedStore

open Versioned Log

variable {s : VersionedStore} {d : Disk} {b : Batch} {v : String} {batches : List Batch}
  {commits : List (UInt64 × Change)}

/-! ## One batch -/

/-- The store after one more commit. -/
def committing (s : VersionedStore) (change : Change) : VersionedStore :=
  { s with
    log := { s.log with frames := s.log.frames + 1 }
    committed := s.committed.apply (s.committed.seq + 1) change }

theorem seq_committing (change : Change) :
    (s.committing change).committed.seq = s.committed.seq + 1 := rfl

theorem toNat_seq_committing (change : Change) (hroom : s.committed.seq.toNat + 1 < 2 ^ 64) :
    (s.committing change).committed.seq.toNat = s.committed.seq.toNat + 1 := by
  rw [seq_committing, toNat_next hroom]

theorem perform_closed (hclosed : s.closed = true) (hattempts : 0 < s.maxAttempts) :
    s.perform d b = (s, d, .error .closed) := by
  rw [perform_eq_attempt hattempts, attempt_of_closed hclosed]

theorem perform_readOnly (hopen : s.closed = false) (hattempts : 0 < s.maxAttempts)
    (hread : b.isReadOnly = true) :
    s.perform d b = (s, d, .ok (b.readFrom s.committed.contents)) := by
  rw [perform_eq_attempt hattempts, attempt_of_isReadOnly hopen hread]

theorem perform_large (hopen : s.closed = false) (hattempts : 0 < s.maxAttempts)
    (hwrite : b.isReadOnly = false) (hintact : s.log.poisoned = false)
    (hlarge : ¬ b.change.Fits) :
    s.perform d b = (s, d, .error (.storage (.largeCommit (s.committed.seq + 1)))) := by
  have hlog : s.log.append d (s.committed.seq + 1) b.change = _ :=
    CommitLog.append_large hintact hlarge
  rw [perform_eq_attempt hattempts, attempt_of_unlogged hopen hwrite hlog]

theorem perform_fits (hopen : s.closed = false) (hattempts : 0 < s.maxAttempts)
    (hwrite : b.isReadOnly = false) (hintact : s.log.poisoned = false) (hfits : b.change.Fits) :
    s.perform d b = (s.committing b.change,
      d.append s.log.file (frameOf (s.committed.seq + 1, b.change)).encoded,
      .ok (b.readFrom s.committed.contents)) := by
  have hlog : s.log.append d (s.committed.seq + 1) b.change = _ :=
    CommitLog.append_fits hintact hfits
  rw [perform_eq_attempt hattempts, attempt_of_logged hopen hwrite hlog]
  rfl

theorem perform_abandoned (hattempts : s.maxAttempts = 0) :
    ∃ e, s.perform d b = (s, d, .error e) := by
  rw [perform, hattempts, retry]
  exact ⟨_, rfl⟩

namespace Synced

/-- The next number is new. -/
theorem lastOf_lt (h : s.Synced d commits) (hroom : s.committed.seq.toNat + 1 < 2 ^ 64) :
    Replay.lastOf 0 commits < s.committed.seq + 1 := by
  rw [h.lastOf_eq]
  exact lt_next hroom

/-- A commit is added to the log and to what is in memory. -/
theorem committing {change : Change} (h : s.Synced d commits)
    (hroom : s.committed.seq.toNat + 1 < 2 ^ 64) (hfits : change.Fits) :
    (s.committing change).Synced
      (d.append s.log.file (frameOf (s.committed.seq + 1, change)).encoded)
      (commits ++ [(s.committed.seq + 1, change)]) := by
  -- the frame is added to the file, and the same change to what is in memory
  have hadded := h.holds.append (h.lastOf_lt hroom) hfits
  refine ⟨hadded.of_file rfl rfl, h.intact, ?_, ?_, h.sized.apply _ _⟩
  · have hframes := h.frames
    simp [VersionedStore.committing, hframes]
  · rw [Committed.applyAll_append]
    exact h.agrees.apply _ _

/-- Whatever a batch comes to, the store still says what its file says. -/
theorem perform (h : s.Synced d commits)
    (hroom : b.isReadOnly = false → s.committed.seq.toNat + 1 < 2 ^ 64 - 1) :
    (∃ more, (s.perform d b).1.Synced (s.perform d b).2.1 (commits ++ more)) ∧
      (s.perform d b).1.log.path = s.log.path ∧
      (s.perform d b).1.committed.seq.toNat ≤ s.committed.seq.toNat + 1 := by
  have hsame : ∀ answer, s.perform d b = (s, d, answer) →
      (∃ more, (s.perform d b).1.Synced (s.perform d b).2.1 (commits ++ more)) ∧
        (s.perform d b).1.log.path = s.log.path ∧
        (s.perform d b).1.committed.seq.toNat ≤ s.committed.seq.toNat + 1 := by
    intro answer hanswer
    rw [hanswer]
    refine ⟨⟨[], ?_⟩, rfl, Nat.le_succ _⟩
    rw [List.append_nil]
    exact h
  -- whatever is refused or only reads changes nothing
  rcases Nat.eq_zero_or_pos s.maxAttempts with hattempts | hattempts
  · rcases perform_abandoned (d := d) (b := b) hattempts with ⟨e, hanswer⟩
    exact hsame _ hanswer
  · cases hopen : s.closed with
    | true => exact hsame _ (perform_closed hopen hattempts)
    | false =>
        cases hwrite : b.isReadOnly with
        | true => exact hsame _ (perform_readOnly hopen hattempts hwrite)
        | false =>
            have hnext := hroom hwrite
            by_cases hfits : b.change.Fits
            · rw [perform_fits hopen hattempts hwrite h.intact hfits]
              refine ⟨⟨_, h.committing (by omega) hfits⟩, rfl, ?_⟩
              exact Nat.le_of_eq (toNat_seq_committing _ (by omega))
            · exact hsame _ (perform_large hopen hattempts hwrite h.intact hfits)

end Synced

/-! ## Many batches -/

/-- Performs some batches, one after the other. -/
def performAll (s : VersionedStore) (d : Disk) :
    List Batch → VersionedStore × Disk × List (Except StoreError Values)
  | [] => (s, d, [])
  | b :: rest =>
      let (s, d, answer) := s.perform d b
      let (s, d, answers) := performAll s d rest
      (s, d, answer :: answers)

/-- The commits of the batches that write and fit a frame, after a commit with a number. -/
def numbered (seq : UInt64) : List Batch → List (UInt64 × Change)
  | [] => []
  | b :: rest =>
      if b.isReadOnly = false ∧ b.change.Fits then (seq + 1, b.change) :: numbered (seq + 1) rest
      else numbered seq rest

/-- What batches come to: those that write and fit a frame are in the log, and only those that write
and do not fit are refused. -/
structure Performed (s : VersionedStore) (d : Disk) (commits : List (UInt64 × Change))
    (batches : List Batch) : Prop where
  synced : (s.performAll d batches).1.Synced (s.performAll d batches).2.1
    (commits ++ numbered s.committed.seq batches)
  path : (s.performAll d batches).1.log.path = s.log.path
  answers : (s.performAll d batches).2.2.map Except.toBool =
    batches.map (fun b => b.isReadOnly || decide b.change.Fits)

namespace Performed

theorem nil (h : s.Synced d commits) : Performed s d commits [] := by
  refine ⟨?_, rfl, rfl⟩
  rw [numbered, List.append_nil]
  exact h

/-- A batch that changes nothing comes first. -/
theorem cons_of_same {answer : Except StoreError Values} (h : Performed s d commits batches)
    (hsame : s.perform d b = (s, d, answer)) (hnot : ¬ (b.isReadOnly = false ∧ b.change.Fits))
    (hanswer : answer.toBool = (b.isReadOnly || decide b.change.Fits)) :
    Performed s d commits (b :: batches) := by
  rcases h with ⟨hsynced, hpath, hanswers⟩
  constructor
  · rw [performAll, hsame, numbered, if_neg hnot]
    exact hsynced
  · rw [performAll, hsame]
    exact hpath
  · rw [performAll, hsame, List.map_cons, List.map_cons, hanswer]
    exact congrArg _ hanswers

/-- A batch that commits comes first, and the others are performed behind its commit. -/
theorem cons_of_commit
    (h : Performed (s.committing b.change)
      (d.append s.log.file (frameOf (s.committed.seq + 1, b.change)).encoded)
      (commits ++ [(s.committed.seq + 1, b.change)]) batches)
    (hcommit : s.perform d b = (s.committing b.change,
      d.append s.log.file (frameOf (s.committed.seq + 1, b.change)).encoded,
      .ok (b.readFrom s.committed.contents)))
    (hwrite : b.isReadOnly = false) (hfits : b.change.Fits) :
    Performed s d commits (b :: batches) := by
  rcases h with ⟨hsynced, hpath, hanswers⟩
  rw [List.append_assoc, seq_committing] at hsynced
  constructor
  · rw [performAll, hcommit, numbered, if_pos ⟨hwrite, hfits⟩]
    exact hsynced
  · rw [performAll, hcommit]
    exact hpath
  · rw [performAll, hcommit, List.map_cons, List.map_cons, decide_eq_true hfits, Bool.or_true]
    exact congrArg _ hanswers

end Performed

theorem length_numbered_le (seq : UInt64) (batches : List Batch) :
    (numbered seq batches).length ≤ batches.length := by
  induction batches generalizing seq with
  | nil => exact Nat.le_refl 0
  | cons b rest ih =>
      rw [numbered]
      split
      · exact Nat.succ_le_succ (ih (seq + 1))
      · exact Nat.le_succ_of_le (ih seq)

/-- Each batch that fits a frame is accepted, and its commit is in the log, as long as there are
numbers left for the commits. -/
theorem Synced.performed (h : s.Synced d commits) (hopen : s.closed = false)
    (hattempts : 0 < s.maxAttempts) (batches : List Batch)
    (hroom : s.committed.seq.toNat + (numbered s.committed.seq batches).length < 2 ^ 64 - 1) :
    Performed s d commits batches := by
  induction batches generalizing s d commits with
  | nil => exact .nil h
  | cons b rest ih =>
      rw [numbered] at hroom
      cases hwrite : b.isReadOnly with
      | true =>
          have hnot : ¬ (b.isReadOnly = false ∧ b.change.Fits) := by simp [hwrite]
          rw [if_neg hnot] at hroom
          have hread := perform_readOnly (d := d) hopen hattempts hwrite
          refine (ih h hopen hattempts hroom).cons_of_same hread hnot ?_
          rw [hwrite]
          rfl
      | false =>
          by_cases hfits : b.change.Fits
          · rw [if_pos ⟨hwrite, hfits⟩, List.length_cons] at hroom
            have hcommit := perform_fits (d := d) hopen hattempts hwrite h.intact hfits
            -- one number is used up
            have hseq := toNat_seq_committing (s := s) b.change (by omega)
            have hrest : (s.committing b.change).committed.seq.toNat +
                (numbered (s.committing b.change).committed.seq rest).length < 2 ^ 64 - 1 := by
              rw [hseq, seq_committing]
              omega
            have hperformed := ih (h.committing (by omega) hfits) hopen hattempts hrest
            exact hperformed.cons_of_commit hcommit hwrite hfits
          · have hnot : ¬ (b.isReadOnly = false ∧ b.change.Fits) := fun hboth => hfits hboth.2
            rw [if_neg hnot] at hroom
            have hlarge := perform_large (d := d) hopen hattempts hwrite h.intact hfits
            refine (ih h hopen hattempts hroom).cons_of_same hlarge hnot ?_
            rw [hwrite, decide_eq_false hfits]
            rfl

theorem Synced.performAll (h : s.Synced d commits) (hopen : s.closed = false)
    (hattempts : 0 < s.maxAttempts) (batches : List Batch)
    (hroom : s.committed.seq.toNat + batches.length < 2 ^ 64 - 1) :
    Performed s d commits batches := by
  have hfew := length_numbered_le s.committed.seq batches
  exact h.performed hopen hattempts batches (by omega)

/-! ## Batches that are accepted -/

/-- Batches that all write and fit a frame. -/
def Accepted (batches : List Batch) : Prop :=
  ∀ b ∈ batches, b.isReadOnly = false ∧ b.change.Fits

theorem changes_numbered (h : Accepted batches) (seq : UInt64) :
    (numbered seq batches).map Prod.snd = batches.map Batch.change := by
  induction batches generalizing seq with
  | nil => rfl
  | cons b rest ih =>
      have hfirst := h b (by simp)
      have hrest := ih (fun b' hb' => h b' (by simp [hb'])) (seq + 1)
      rw [numbered, if_pos hfirst, List.map_cons, List.map_cons, hrest]

theorem contents_applyAll (c : Committed) (commits : List (UInt64 × Change)) :
    (c.applyAll commits).contents =
      (commits.map Prod.snd).foldl (fun contents change => change.writeTo contents) c.contents := by
  induction commits generalizing c with
  | nil => rfl
  | cons commit commits ih =>
      have hnext := ih (c.apply commit.1 commit.2)
      rw [Committed.contents_apply] at hnext
      exact hnext

/-- What accepted batches make of an empty store. -/
theorem contents_numbered (h : Accepted batches) :
    (Committed.empty.applyAll (numbered 0 batches)).contents =
      batches.foldl (fun contents b => b.writeTo contents) .empty := by
  rw [contents_applyAll, changes_numbered h, List.foldl_map]
  simp only [writeTo_change]
  rfl

theorem length_numbered (h : Accepted batches) (seq : UInt64) :
    (numbered seq batches).length = batches.length := by
  have hlength := congrArg List.length (changes_numbered h seq)
  rwa [List.length_map, List.length_map] at hlength

/-! ## Updates -/

/-- An update fits a frame if the key and the value leave some bytes of it. -/
theorem fits_updating {key : Key}
    (hsize : key.text.utf8ByteSize + v.utf8ByteSize + 26 ≤ Frame.largestBody) :
    (Batch.updating key v).change.Fits := by
  have hchange : (Batch.updating key v).change = ⟨[(key.text, v)], []⟩ := rfl
  have hkey := Change.textSize_le key.text
  have hvalue := Change.textSize_le v
  have hpacked : (Batch.updating key v).change.packedSize =
      4 + Packed.textSize key.text + Packed.textSize v := by
    rw [hchange]
    simp [Change.packedSize, Change.putSize, Packed.arrayHeadSize]
    omega
  unfold Change.Fits Frame.overhead
  omega

theorem writeTo_updating (key : Key) (w : String) (contents : SortedMap String String) :
    (Batch.updating key w).writeTo contents = contents.insert key.text w := rfl

/-- The same update, many times. -/
def repeating (n : Nat) : List Batch :=
  List.replicate (n + 1) (.updating ⟨"/c", by decide, by decide, by decide⟩ "v")

theorem accepted_repeating (n : Nat) : Accepted (repeating n) := by
  intro b hb
  rw [List.eq_of_mem_replicate hb]
  exact ⟨rfl, fits_updating (by decide)⟩

/-- The same update many times is as good as once. -/
theorem foldl_repeating (contents : SortedMap String String) (n : Nat) :
    (repeating n).foldl (fun contents b => b.writeTo contents) contents =
      contents.insert "/c" "v" := by
  induction n generalizing contents with
  | zero => rfl
  | succ n ih =>
      rw [repeating, List.replicate_succ, List.foldl_cons, writeTo_updating]
      refine (ih _).trans (SortedMap.ext ?_)
      intro q
      rw [SortedMap.get?_insert, SortedMap.get?_insert]
      split
      · rfl
      · rfl

theorem contents_repeating (n : Nat) :
    (Committed.empty.applyAll (numbered 0 (repeating n))).contents =
      SortedMap.empty.insert "/c" "v" :=
  (contents_numbered (accepted_repeating n)).trans (foldl_repeating .empty n)

/-- What has been updated many times is put by a single change that fits a frame. -/
theorem fits_snapshot_repeating {c : Committed}
    (hcontents : c.contents = SortedMap.empty.insert "/c" "v") : c.snapshot.Fits := by
  have hsnapshot : c.snapshot =
      (Batch.updating ⟨"/c", by decide, by decide, by decide⟩ "v").change := by
    rw [Committed.snapshot_eq, hcontents]
    rfl
  rw [hsnapshot]
  exact fits_updating (by decide)

end VersionedStore
end GuardedStore
