import GuardedStore.Proofs.BatchChange
import GuardedStore.Proofs.LogFile

/-!
# Attempts — what a batch comes to when no other call is in between

An attempt sees what has been committed, so it is never in conflict (`validate_view`).  It is
refused if the store is closed or if its commit cannot be logged; else it reads what was committed
before and commits the change of its batch.  So the first attempt decides (`perform_eq_attempt`).
-/

namespace GuardedStore

theorem CommitLog.path_of_append {log log' : CommitLog} {d d' : Disk} {seq : UInt64}
    {change : Log.Change} (h : log.append d seq change = .ok (d', log')) :
    log'.path = log.path := by
  rcases append_ok h with ⟨-, -, -, rfl⟩
  rfl

namespace VersionedStore

open Versioned Log

variable {s : VersionedStore} {d d' : Disk} {b : Batch} {log : CommitLog} {e : StoreError}

theorem ensureOpen_of_open (hopen : s.closed = false) : s.ensureOpen = .ok () := by
  simp [ensureOpen, hopen]

theorem ensureOpen_of_closed (hclosed : s.closed = true) : s.ensureOpen = .error .closed := by
  simp [ensureOpen, hclosed]

/-- What it takes to be validated. -/
theorem validate_ok {t : Transaction} {seq : UInt64} (h : s.validate t = .ok seq) :
    s.closed = false ∧ t.conflict? s.committed.entries = none ∧ seq = s.committed.seq + 1 := by
  cases hopen : s.closed with
  | true =>
      rw [validate, ensureOpen_of_closed hopen] at h
      cases h
  | false =>
      rw [validate, ensureOpen_of_open hopen] at h
      cases hconflict : t.conflict? s.committed.entries with
      | some key =>
          rw [hconflict] at h
          cases h
      | none =>
          rw [hconflict] at h
          cases h
          exact ⟨rfl, rfl, rfl⟩

/-- A commit that is logged has not taken effect yet. -/
theorem logCommit_inv {s' : VersionedStore} {t : Transaction} {seq : UInt64}
    (h : s.logCommit d seq t = .ok (s', d')) :
    ∃ log, s.log.append d seq t.change = .ok (d', log) ∧ s' = { s with log } := by
  unfold logCommit at h
  split at h
  · cases h
  · rename_i d₁ log hlog
    cases h
    exact ⟨log, hlog, rfl⟩

theorem committed_of_logCommit {s' : VersionedStore} {t : Transaction} {seq : UInt64}
    (h : s.logCommit d seq t = .ok (s', d')) : s'.committed = s.committed := by
  rcases logCommit_inv h with ⟨log, -, rfl⟩
  rfl

/-- An attempt that nothing comes between is not in conflict. -/
theorem validate_view (hopen : s.closed = false) :
    s.validate (s.committed.view.write b) = .ok (s.committed.seq + 1) := by
  simp only [validate, ensureOpen_of_open hopen, conflict?_self]

theorem logCommit_error (seq : UInt64) (h : s.log.append d seq b.change = .error e) :
    s.logCommit d seq (s.committed.view.write b) = .error e := by
  rw [← change_write s.committed] at h
  simp only [logCommit, h]

theorem logCommit_ok (seq : UInt64) (h : s.log.append d seq b.change = .ok (d', log)) :
    s.logCommit d seq (s.committed.view.write b) = .ok ({ s with log }, d') := by
  rw [← change_write s.committed] at h
  simp only [logCommit, h]

/-! ## One attempt -/

theorem attempt_of_closed (hclosed : s.closed = true) : s.attempt d b = .error .closed := by
  simp only [attempt, begin, ensureOpen_of_closed hclosed]

theorem attempt_of_isReadOnly (hopen : s.closed = false) (hread : b.isReadOnly = true) :
    s.attempt d b = .ok (s, d, b.readFrom s.committed.contents) := by
  have hcommit : s.commit d (s.committed.view.write b) = .ok (s, d) := by
    rw [commit, if_pos (by rw [isReadOnly_write, hread])]
  simp only [attempt, begin, ensureOpen_of_open hopen, hcommit, valuesOf_view]

theorem attempt_of_unlogged (hopen : s.closed = false) (hwrite : b.isReadOnly = false)
    (hlog : s.log.append d (s.committed.seq + 1) b.change = .error e) :
    s.attempt d b = .error e := by
  have hcommit : s.commit d (s.committed.view.write b) = .error e := by
    rw [commit, if_neg (by rw [isReadOnly_write, hwrite]; exact Bool.false_ne_true)]
    simp only [validate_view hopen, logCommit_error _ hlog]
  simp only [attempt, begin, ensureOpen_of_open hopen, hcommit]

theorem attempt_of_logged (hopen : s.closed = false) (hwrite : b.isReadOnly = false)
    (hlog : s.log.append d (s.committed.seq + 1) b.change = .ok (d', log)) :
    s.attempt d b =
      .ok ({ s with log, committed := s.committed.apply (s.committed.seq + 1) b.change }, d',
        b.readFrom s.committed.contents) := by
  have hcommit : s.commit d (s.committed.view.write b) =
      .ok ({ s with log, committed := s.committed.apply (s.committed.seq + 1) b.change }, d') := by
    rw [commit, if_neg (by rw [isReadOnly_write, hwrite]; exact Bool.false_ne_true)]
    simp only [validate_view hopen, logCommit_ok _ hlog, applyCommit, change_write]
  simp only [attempt, begin, ensureOpen_of_open hopen, hcommit, valuesOf_view]

/-- What keeps an attempt from succeeding. -/
theorem attempt_error (h : s.attempt d b = .error e) :
    e = .closed ∨ e = .storage (.brokenLog s.log.path) ∨
      e = .storage (.largeCommit (s.committed.seq + 1)) := by
  cases hopen : s.closed with
  | true =>
      rw [attempt_of_closed hopen] at h
      cases h
      exact .inl rfl
  | false =>
      cases hwrite : b.isReadOnly with
      | true =>
          rw [attempt_of_isReadOnly hopen hwrite] at h
          cases h
      | false =>
          cases hlog : s.log.append d (s.committed.seq + 1) b.change with
          | error e =>
              rw [attempt_of_unlogged hopen hwrite hlog] at h
              cases h
              exact .inr (CommitLog.append_error hlog)
          | ok r =>
              rw [attempt_of_logged hopen hwrite hlog] at h
              cases h

theorem attempt_ne_conflict (h : s.attempt d b = .error e) (c : Conflict) :
    e ≠ .storageConflict c := by
  rcases attempt_error h with rfl | rfl | rfl
  · nofun
  · nofun
  · nofun

/-! ## All attempts -/

/-- The first attempt decides. -/
theorem perform_eq_attempt (hattempts : 0 < s.maxAttempts) :
    s.perform d b = match s.attempt d b with
      | .ok (s, d, values) => (s, d, .ok values)
      | .error e => (s, d, .error e) := by
  rcases Nat.exists_eq_add_of_lt hattempts with ⟨left, hleft⟩
  rw [perform, hleft, Nat.zero_add, retry]
  cases hattempt : s.attempt d b with
  | ok r => rfl
  | error e =>
      cases e with
      -- only a conflict leads to another attempt
      | storageConflict c => exact absurd rfl (attempt_ne_conflict hattempt c)
      | _ => rfl

end VersionedStore
end GuardedStore
