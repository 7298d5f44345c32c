import GuardedStore.Proofs.Performing
import GuardedStore.Proofs.TableContents
import GuardedStore.Store.Basic

/-!
# StoreContents — stores of either kind as values under names

The contents of a store are the values that it keeps, whether it is open or closed
(`Store.contents`).  A batch that a store accepts reads from them and writes to them, and one that
fails leaves the store untouched (`Store.perform_cases`); a look-up answers what they say
(`Store.get_cases`).  All of this is so on sound disks, and a store that is opened leaves the disk
sound (`Store.isSound_openAt`).  What goes wrong in a store has the same status on any disk.
-/

namespace GuardedStore

open Versioned

variable {d d' : Disk} {b : Batch} {key : Key}

/-! ## Versioned stores -/

theorem CommitLog.status_of_append {log : CommitLog} {seq : UInt64} {change : Log.Change}
    {e : StoreError} (h : log.append d seq change = .error e) : e.status = 500 := by
  rcases append_error h with rfl | rfl
  · rfl
  · rfl

theorem CommitLog.isSound_of_append {log log' : CommitLog} {seq : UInt64} {change : Log.Change}
    (h : d.IsSound) (happend : log.append d seq change = .ok (d', log')) : d'.IsSound := by
  rcases append_ok happend with ⟨-, -, rfl, -⟩
  exact h.append _ _

theorem CommitLog.isSound_openAt (h : d.IsSound) (path : String) : (openAt d path).1.IsSound := by
  unfold openAt
  have h₁ := h.makeParents path
  rcases hparents : d.makeParents path with ⟨d₁, _ | _⟩
  · rw [hparents] at h₁
    exact h₁
  · rw [hparents] at h₁
    simp only at h₁ ⊢
    split
    · exact h₁
    · rename_i d₂ file hopen
      have h₂ := h₁.open? hopen
      split
      · exact h₂
      · exact h₂.setContent _ _

theorem CommitLog.isSound_of_compact {log log' : CommitLog} {seq : UInt64} {change : Log.Change}
    (h : d.IsSound) (hcompact : log.compact d seq change = .ok (d', log')) : d'.IsSound := by
  unfold compact at hcompact
  split at hcompact
  · cases hcompact
  · split at hcompact
    · cases hcompact
    · rename_i d₁ file hreplace
      cases hcompact
      exact h.replace? hreplace

namespace VersionedStore

theorem isSound_openAt (h : d.IsSound) (path : String) (settings : StorageSettings) :
    (openAt d path settings).1.IsSound := by
  unfold openAt
  have h₁ := CommitLog.isSound_openAt h path
  rcases hlog : CommitLog.openAt d path with ⟨d₁, e | ⟨log, replay⟩⟩
  · rw [hlog] at h₁
    exact h₁
  · rw [hlog] at h₁
    simp only at h₁ ⊢
    split
    · split
      · exact h₁
      · rename_i d₂ log' hcompact
        exact CommitLog.isSound_of_compact h₁ hcompact
    · exact h₁

/-- A batch fails and leaves the store and the disk, or it reads from the contents and writes to
them.  One that has nothing to write leaves store and disk in any case. -/
theorem perform_cases (h : d.IsSound) (s : VersionedStore) (b : Batch) :
    (∃ e, s.perform d b = (s, d, .error e) ∧ e.status = 500) ∨
      ∃ s' d', s.perform d b = (s', d', .ok (b.readFrom s.committed.contents)) ∧ d'.IsSound ∧
        s'.committed.contents = b.writeTo s.committed.contents ∧
          (b.isReadOnly = true → s' = s ∧ d' = d) := by
  rcases Nat.eq_zero_or_pos s.maxAttempts with hattempts | hattempts
  · refine Or.inl ⟨.storage (.abandoned 0 (.described "no attempt was made")), ?_, rfl⟩
    rw [perform, hattempts, retry, hattempts]
  · cases hopen : s.closed with
    | true => exact Or.inl ⟨_, perform_closed hopen hattempts, rfl⟩
    | false =>
        cases hwrite : b.isReadOnly with
        | true =>
            have hperform := perform_readOnly (d := d) hopen hattempts hwrite
            refine Or.inr ⟨s, d, hperform, h, ?_, fun _ => ⟨rfl, rfl⟩⟩
            rw [Batch.writeTo_of_isReadOnly hwrite]
        | false =>
            rw [perform_eq_attempt hattempts]
            -- the log decides whether the change is committed
            cases hlog : s.log.append d (s.committed.seq + 1) b.change with
            | error e =>
                rw [attempt_of_unlogged hopen hwrite hlog]
                exact Or.inl ⟨e, rfl, CommitLog.status_of_append hlog⟩
            | ok r =>
                rw [attempt_of_logged hopen hwrite hlog]
                refine Or.inr ⟨_, _, rfl, CommitLog.isSound_of_append h hlog, ?_, ?_⟩
                · rw [Committed.contents_apply, writeTo_change]
                · intro hread
                  cases hread

theorem get_cases (s : VersionedStore) (key : Key) :
    (∃ e, s.get key = .error e ∧ e.status = 500) ∨
      s.get key = .ok (s.committed.contents.get? key.text) := by
  unfold get begin
  cases hopen : s.closed with
  | true =>
      rw [ensureOpen_of_closed hopen]
      exact Or.inl ⟨_, rfl, rfl⟩
  | false =>
      rw [ensureOpen_of_open hopen]
      refine Or.inr ?_
      rw [Committed.contents, SortedMap.get?_mapValues]
      rfl

variable {s : VersionedStore} {e : StoreError}

theorem status_of_attempt (h : s.attempt d b = .error e) : e.status = 500 := by
  rcases attempt_error h with rfl | rfl | rfl
  · rfl
  · rfl
  · rfl

theorem status_of_perform (h : (s.perform d b).2.2 = .error e) : e.status = 500 := by
  rcases Nat.eq_zero_or_pos s.maxAttempts with hattempts | hattempts
  · rw [perform, hattempts, retry, hattempts] at h
    cases h
    rfl
  · rw [perform_eq_attempt hattempts] at h
    split at h
    · cases h
    · rename_i hattempt
      cases h
      exact status_of_attempt hattempt

theorem status_of_get (h : s.get key = .error e) : e.status = 500 := by
  rcases s.get_cases key with ⟨e', hget, hstatus⟩ | hget
  · rw [hget] at h
    cases h
    exact hstatus
  · rw [hget] at h
    cases h

end VersionedStore

/-! ## Stores of either kind -/

namespace Store

theorem versioned_of_openAt {s : Store} {path : String} {settings : StorageSettings}
    (hopen : openAt d .versioned path settings = (d', .ok s)) :
    ∃ v, s = .versioned v ∧ VersionedStore.openAt d path settings = (d', .ok v) := by
  simp only [openAt] at hopen
  rcases hresult : VersionedStore.openAt d path settings with ⟨d₁, e | v⟩
  · rw [hresult] at hopen
    cases hopen
  · rw [hresult] at hopen
    cases hopen
    exact ⟨v, rfl, rfl⟩

theorem tabular_of_openAt {s : Store} {path : String} {settings : StorageSettings}
    (hopen : openAt d .tabular path settings = (d', .ok s)) :
    ∃ t, s = .tabular t ∧ TabularStore.openAt d path = (d', .ok t) := by
  simp only [openAt] at hopen
  rcases hresult : TabularStore.openAt d path with ⟨d₁, e | t⟩
  · rw [hresult] at hopen
    cases hopen
  · rw [hresult] at hopen
    cases hopen
    exact ⟨t, rfl, rfl⟩

theorem isSound_openAt (h : d.IsSound) (kind : StoreKind) (path : String)
    (settings : StorageSettings) : (openAt d kind path settings).1.IsSound := by
  cases kind with
  | versioned =>
      have hsound := VersionedStore.isSound_openAt h path settings
      simp only [openAt]
      exact hsound
  | tabular =>
      have hsound := TabularStore.isSound_openAt h path
      simp only [openAt]
      exact hsound

/-- The values in a store under their names, whether it is open or closed. -/
def contents (s : Store) (d : Disk) : SortedMap String String :=
  match s with
  | versioned s => s.committed.contents
  | tabular s => Table.contents d s.path

/-- What has been done to the disk has left a store as it was: its contents, and all that is on the
disk if it keeps a log there. -/
structure Untouched (s : Store) (d d' : Disk) : Prop where
  sound : d'.IsSound
  contents : s.contents d' = s.contents d
  disk : s.kind = .versioned → d' = d

theorem Untouched.refl (h : d.IsSound) (s : Store) : s.Untouched d d := ⟨h, rfl, fun _ => rfl⟩

theorem untouched_tabular {s : TabularStore} (hsound : d'.IsSound)
    (hsame : Table.contents d' s.path = Table.contents d s.path) :
    (tabular s).Untouched d d' := by
  refine ⟨hsound, hsame, ?_⟩
  intro hkind
  cases hkind

/-- A batch fails and leaves the store untouched, or it reads from the contents and writes to them.
One that has nothing to write leaves the store untouched in any case. -/
theorem perform_cases (h : d.IsSound) (s : Store) (b : Batch) :
    (∃ d' e, s.perform d b = (s, d', .error e) ∧ e.status = 500 ∧ s.Untouched d d') ∨
      ∃ s' d', s.perform d b = (s', d', .ok (b.readFrom (s.contents d))) ∧ d'.IsSound ∧
        s'.contents d' = b.writeTo (s.contents d) ∧
          (b.isReadOnly = true → s' = s ∧ s.Untouched d d') := by
  cases s with
  | versioned s =>
      simp only [perform]
      rcases s.perform_cases h b with
        ⟨e, hperform, hstatus⟩ | ⟨s', d', hperform, hsound, hwritten, hread⟩
      · rw [hperform]
        exact Or.inl ⟨d, e, rfl, hstatus, .refl h _⟩
      · rw [hperform]
        refine Or.inr ⟨.versioned s', d', rfl, hsound, hwritten, ?_⟩
        intro hreadOnly
        rcases hread hreadOnly with ⟨rfl, rfl⟩
        exact ⟨rfl, .refl h _⟩
  | tabular s =>
      simp only [perform]
      rcases s.perform_cases h b with
        ⟨d', e, hperform, hstatus, hsound, hsame⟩ | ⟨d', hperform, hsound, hwritten⟩
      · rw [hperform]
        exact Or.inl ⟨d', e, rfl, hstatus, untouched_tabular hsound hsame⟩
      · rw [hperform]
        refine Or.inr ⟨.tabular s, d', rfl, hsound, hwritten, ?_⟩
        intro hreadOnly
        rw [Batch.writeTo_of_isReadOnly hreadOnly] at hwritten
        exact ⟨rfl, untouched_tabular hsound hwritten⟩

/-- A look-up leaves the store untouched; it fails, or it answers what the contents say. -/
theorem get_cases (h : d.IsSound) (s : Store) (key : Key) :
    s.Untouched d (s.get d key).1 ∧
      ((∃ e, (s.get d key).2 = .error e ∧ e.status = 500) ∨
        (s.get d key).2 = .ok ((s.contents d).get? key.text)) := by
  cases s with
  | versioned s => exact ⟨.refl h _, s.get_cases key⟩
  | tabular s =>
      rcases s.get_cases h key with ⟨hsound, hsame, hanswer⟩
      exact ⟨untouched_tabular hsound hsame, hanswer⟩

variable {s : Store} {e : StoreError}

/-- Whatever goes wrong in a store, on whatever disk, is told alike. -/
theorem status_of_perform (h : (s.perform d b).2.2 = .error e) : e.status = 500 := by
  cases s with
  | versioned s => exact VersionedStore.status_of_perform h
  | tabular s => exact TabularStore.status_of_perform h

theorem status_of_get (h : (s.get d key).2 = .error e) : e.status = 500 := by
  cases s with
  | versioned s => exact VersionedStore.status_of_get h
  | tabular s => exact TabularStore.status_of_get h

end Store
end GuardedStore
