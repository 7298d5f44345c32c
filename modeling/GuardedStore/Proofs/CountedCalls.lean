import GuardedStore.Proofs.AdmissionErrors
import GuardedStore.Proofs.AllOrNothing
import Mathlib.Data.Finset.Dedup
import Mathlib.Data.Finset.Card

/-!
# CountedCalls — every call is counted once, by its status

Each call raises one of four counters by one, and its status tells which (`Metrics.Raises`): every
status that a call can have belongs to one of them.  A call that is counted as a transaction also
adds the numbers of its keys, where a key counts once however often it is spelled
(`Call.keyCount_of_admitted`).  So after any calls the counters add up to the number of these calls,
and the numbers of keys to those of the transactions among them (`Service.Handles.counts`).
-/

namespace GuardedStore

/-! ## Counters -/

/-- The counters of calls. -/
inductive Counter where
  | transactions
  | rejections
  | storageErrors
  | authenticationFailures
  deriving Repr, DecidableEq

/-- The statuses of the calls that are counted by a counter. -/
def Counter.statuses : Counter → List Nat
  | transactions => [200, 404]
  | rejections => [400]
  | storageErrors => [500]
  | authenticationFailures => [401]

/-- What is done with the keys of a transaction. -/
inductive Purpose where
  | read
  | update
  | delete
  deriving Repr, DecidableEq

variable {c c' : Counter} {status : Nat} {p : Purpose} {m m' : Metrics}

theorem Counter.eq_of_mem_statuses (h : status ∈ c.statuses) (h' : status ∈ c'.statuses) :
    c' = c := by
  cases c <;> cases c' <;> simp_all [statuses]

namespace Metrics

def count (m : Metrics) : Counter → UInt64
  | .transactions => m.transactions
  | .rejections => m.rejections
  | .storageErrors => m.storageErrors
  | .authenticationFailures => m.authenticationFailures

/-- The number of keys of transactions, for one purpose. -/
def keys (m : Metrics) : Purpose → UInt64
  | .read => m.keysRead
  | .update => m.keysUpdated
  | .delete => m.keysDeleted

/-- The number of calls that have been counted. -/
def calls (m : Metrics) : UInt64 :=
  m.transactions + m.rejections + m.storageErrors + m.authenticationFailures

end Metrics

/-! ## Keys of calls -/

/-- The texts with which a call names keys for one purpose. -/
def Call.texts (call : Call) : Purpose → List String
  | .read => call.reads
  | .update => call.updates.map (·.1)
  | .delete => call.deletes

/-- The number of keys that a call names for one purpose; a key that is spelled several times counts
once. -/
def Call.keyCount (call : Call) (p : Purpose) : Nat :=
  ((call.texts p).filterMap Key.normal?).toFinset.card

/-- The number of keys of a batch for one purpose. -/
def Batch.keyCount (b : Batch) : Purpose → Nat
  | .read => b.read.size
  | .update => b.update.size
  | .delete => b.delete.size

/-- The keys of a batch for one purpose. -/
def Batch.keysFor (b : Batch) : Purpose → List Key
  | .read => b.read.keys
  | .update => b.update.keys
  | .delete => b.delete.keys

variable {u : User} {call : Call} {j : Job} {d d' : Disk} {g g' : Gate} {chance : Chance}
  {b : Batch} {e : StoreError} {key key' : Key} {raw : String}

theorem Batch.length_keysFor (b : Batch) (p : Purpose) : (b.keysFor p).length = b.keyCount p := by
  cases p <;> simp [keysFor, keyCount, SortedMap.keys, SortedMap.size]

theorem Batch.ascending_keysFor (b : Batch) (p : Purpose) :
    (b.keysFor p).Pairwise (fun a b => compare a b = .lt) := by
  cases p with
  | read => exact b.read.ascending_keys
  | update => exact b.update.ascending_keys
  | delete => exact b.delete.ascending_keys

/-- Keys in ascending order are as many as the texts that spell them spell different ones. -/
theorem Key.length_of_spelled {keys : List Key} {names : List String}
    (hascending : keys.Pairwise (fun a b => compare a b = .lt))
    (h : ∀ key, key ∈ keys ↔ ∃ raw ∈ names, create raw = .ok key) :
    keys.length = (names.filterMap normal?).toFinset.card := by
  have hnodup : (keys.map text).Nodup := by
    refine (List.nodup_map_iff text_injective).2 (hascending.imp ?_)
    rintro k k' hlt rfl
    rw [SortedMap.compare_eq_iff.2 rfl] at hlt
    cases hlt
  have hsame : (keys.map text).toFinset = (names.filterMap normal?).toFinset := by
    ext q
    simp only [List.mem_toFinset, List.mem_map, List.mem_filterMap, h]
    constructor
    · rintro ⟨key, ⟨raw, hraw, hcreate⟩, htext⟩
      exact ⟨raw, hraw, normal?_eq_some_iff.2 ⟨key, hcreate, htext⟩⟩
    · rintro ⟨raw, hraw, hnormal⟩
      rcases normal?_eq_some_iff.1 hnormal with ⟨key, hcreate, htext⟩
      exact ⟨key, ⟨raw, hraw, hcreate⟩, htext⟩
  calc keys.length = (keys.map text).length := (List.length_map text).symm
    _ = (keys.map text).toFinset.card := (List.toFinset_card_of_nodup hnodup).symm
    _ = (names.filterMap normal?).toFinset.card := by rw [hsame]

theorem Key.mem_single_of_authorize {action : Action} (h : u.authorize action raw = .ok key') :
    key ∈ [key'] ↔ ∃ q ∈ [raw], create q = .ok key := by
  simp [(User.authorize_eq_ok_iff.1 h).1, eq_comm]

/-- The batch of an admitted call has the keys that the texts of the call spell. -/
theorem Call.mem_keysFor_of_admitted (h : Admitted u call j) :
    key ∈ j.batch.keysFor p ↔ ∃ raw ∈ call.texts p, Key.create raw = .ok key := by
  -- a call for one key names nothing for the other purposes
  have hnone : key ∈ ([] : List Key) ↔ ∃ raw ∈ ([] : List String), Key.create raw = .ok key := by
    simp
  cases h with
  | @request bytes r b hr hbatch =>
      cases p with
      | read =>
          have htexts : (message bytes).texts .read = r.read.keys := by simp [texts, reads, hr]
          rw [htexts]
          exact User.mem_read_of_batchOf hbatch
      | update =>
          have htexts : (message bytes).texts .update = r.update.names := by
            simp [texts, updates, hr, OrderedEntries.names]
          rw [htexts]
          exact User.mem_update_of_batchOf hbatch
      | delete =>
          have htexts : (message bytes).texts .delete = r.delete.keys := by
            simp [texts, deletes, hr]
          rw [htexts]
          exact User.mem_delete_of_batchOf hbatch
  | read hkey =>
      cases p with
      | read => exact Key.mem_single_of_authorize hkey
      | update => exact hnone
      | delete => exact hnone
  | update hkey =>
      cases p with
      | read => exact hnone
      | update => exact Key.mem_single_of_authorize hkey
      | delete => exact hnone
  | delete hkey =>
      cases p with
      | read => exact hnone
      | update => exact hnone
      | delete => exact Key.mem_single_of_authorize hkey

theorem Call.keyCount_of_admitted (h : Admitted u call j) (p : Purpose) :
    call.keyCount p = j.batch.keyCount p := by
  rw [← Batch.length_keysFor, keyCount]
  exact (Key.length_of_spelled (j.batch.ascending_keysFor p)
    (fun _ => mem_keysFor_of_admitted h)).symm

/-! ## What is counted in the store -/

theorem exists_of_map_ok {ε α β : Type} {f : α → β} {r : Except ε α} {b : β}
    (h : r.map f = .ok b) : ∃ a, f a = b := by
  cases r with
  | error e => cases h
  | ok a => exact ⟨a, Except.ok.inj h⟩

/-- Counts a batch that the store has carried out. -/
def Metrics.batch (m : Metrics) (b : Batch) (nanos : Nat) : Metrics :=
  m.transaction b.read.size b.update.size b.delete.size nanos

namespace Gate

/-- What comes back from the store has been counted: as a transaction with the keys of a batch, or
as an error of the store. -/
def Counts {α : Type} (g : Gate) (chance : Chance) (b : Batch) :
    Gate × Disk × Except StoreError α → Prop
  | (g', _, .ok _) => g'.metrics = g.metrics.batch b chance.nanos
  | (g', _, .error e) => g'.metrics = g.metrics.storageError ∧ e.status = 500

theorem Counts.map {α β : Type} {r : Except StoreError α} (h : g.Counts chance b (g', d', r))
    (f : α → β) : g.Counts chance b (g', d', r.map f) := by
  cases r with
  | ok a => exact h
  | error e => exact h

theorem perform_counts (g : Gate) (d : Disk) (chance : Chance) (b : Batch) :
    g.Counts chance b (g.perform d chance b) := by
  unfold perform
  split
  · exact ⟨rfl, rfl⟩
  · split
    · rename_i hperform
      exact ⟨rfl, Store.status_of_perform (congrArg (·.2.2) hperform)⟩
    · rfl

theorem look_counts (g : Gate) (d : Disk) (chance : Chance) (key : Key) :
    g.Counts chance (.reading key) (g.look d chance key) := by
  unfold look
  split
  · exact ⟨rfl, rfl⟩
  · split
    · rename_i hget
      exact ⟨rfl, Store.status_of_get (congrArg Prod.snd hget)⟩
    · rfl

end Gate

namespace Job

theorem run_counts (j : Job) (g : Gate) (d : Disk) (chance : Chance) :
    g.Counts chance j.batch (j.run g d chance) := by
  cases j with
  | request b => exact (g.perform_counts d chance b).map _
  | read key => exact (g.look_counts d chance key).map _
  | update key value => exact (g.perform_counts d chance (.updating key value)).map _
  | delete key => exact (g.perform_counts d chance (.deleting key)).map _

/-- What is answered to a job has the status of a transaction. -/
theorem status_of_run {response : Wire.Response} (h : (j.run g d chance).2.2 = .ok response) :
    response.status ∈ Counter.transactions.statuses := by
  cases j with
  | request b =>
      rcases exists_of_map_ok h with ⟨values, rfl⟩
      exact .head _
  | read key =>
      rcases exists_of_map_ok h with ⟨_ | value, rfl⟩
      · exact .tail _ (.head _)
      · exact .head _
  | update key value =>
      rcases exists_of_map_ok h with ⟨values, rfl⟩
      exact .head _
  | delete key =>
      rcases exists_of_map_ok h with ⟨values, rfl⟩
      exact .head _

end Job

/-! ## One call -/

namespace Metrics

/-- Of the four counters one is raised by one, and the others stay as they are. -/
def RaisesOnly (m : Metrics) (c : Counter) (m' : Metrics) : Prop :=
  ∀ c', m'.count c' = if c' = c then m.count c' + 1 else m.count c'

theorem raisesOnly_batch (m : Metrics) (b : Batch) (nanos : Nat) :
    m.RaisesOnly .transactions (m.batch b nanos) := by
  intro c
  cases c <;> rfl

theorem raisesOnly_rejection (m : Metrics) : m.RaisesOnly .rejections m.rejection := by
  intro c
  cases c <;> rfl

theorem raisesOnly_storageError (m : Metrics) : m.RaisesOnly .storageErrors m.storageError := by
  intro c
  cases c <;> rfl

theorem raisesOnly_authenticationFailure (m : Metrics) :
    m.RaisesOnly .authenticationFailures m.authenticationFailure := by
  intro c
  cases c <;> rfl

theorem keys_batch (m : Metrics) (b : Batch) (nanos : Nat) (p : Purpose) :
    (m.batch b nanos).keys p = m.keys p + UInt64.ofNat (b.keyCount p) := by
  cases p <;> rfl

/-- If one of the four counters is raised, so is their sum. -/
theorem RaisesOnly.calls (h : m.RaisesOnly c m') : m'.calls = m.calls + 1 := by
  have hsum : m'.calls = m'.count .transactions + m'.count .rejections +
      m'.count .storageErrors + m'.count .authenticationFailures := rfl
  rw [hsum, h, h, h, h]
  cases c <;> simp only [Metrics.calls, Metrics.count, reduceCtorEq, if_true, if_false] <;> grind

/-- A call with some status is counted: the one counter to which its status belongs is raised by
one, and if that is the counter of transactions, the numbers of its keys are added. -/
structure Raises (call : Call) (status : Nat) (m m' : Metrics) : Prop where
  one : ∃! c : Counter, status ∈ c.statuses
  count : ∀ c : Counter, m'.count c = if status ∈ c.statuses then m.count c + 1 else m.count c
  keys : ∀ p, m'.keys p = if status ∈ Counter.transactions.statuses then
    m.keys p + UInt64.ofNat (call.keyCount p) else m.keys p

theorem raises_of_mem (hstatus : status ∈ c.statuses) (honly : m.RaisesOnly c m')
    (hkeys : ∀ p, m'.keys p = if c = .transactions then m.keys p + UInt64.ofNat (call.keyCount p)
      else m.keys p) :
    m.Raises call status m' := by
  have hmem : ∀ c' : Counter, status ∈ c'.statuses ↔ c' = c := by
    intro c'
    constructor
    · intro h
      exact Counter.eq_of_mem_statuses hstatus h
    · rintro rfl
      exact hstatus
  refine ⟨⟨c, hstatus, fun c' h => (hmem c').1 h⟩, ?_, ?_⟩
  · intro c'
    rw [honly c']
    simp only [hmem]
  · intro p
    simp only [hmem, hkeys, eq_comm]

theorem Raises.raisesOnly (h : m.Raises call status m') : ∃ c, m.RaisesOnly c m' := by
  rcases h.one with ⟨c, hc, honly⟩
  refine ⟨c, ?_⟩
  intro c'
  have hmem : status ∈ c'.statuses ↔ c' = c := ⟨honly c', fun h => h ▸ hc⟩
  simp only [h.count c', hmem]

end Metrics

namespace Service

variable {s s' : Service} {name password : String} {r : Wire.Response}

/-- Whichever way a call ends, it is counted by the status of its response. -/
theorem Outcome.raises (h : Outcome s d chance name password call s' d' r) :
    s.gate.metrics.Raises call r.status s'.gate.metrics := by
  cases h with
  | unknown hauth =>
      refine Metrics.raises_of_mem (c := .authenticationFailures) ?_
        s.gate.metrics.raisesOnly_authenticationFailure ?_
      · simp [Counter.statuses, Wire.Response.error, Policy.status_of_authenticate hauth]
      · intro p
        cases p <;> rfl
  | refused hauth hjob =>
      refine Metrics.raises_of_mem (c := .rejections) ?_ s.gate.metrics.raisesOnly_rejection ?_
      · simp [Counter.statuses, Call.status_of_refused hjob]
      · intro p
        cases p <;> rfl
  | @failed u j gate _ e hauth hjob hrun =>
      have hcounts := j.run_counts s.gate d chance
      rw [hrun] at hcounts
      rcases hcounts with ⟨hmetrics, hstatus⟩
      rw [hmetrics]
      refine Metrics.raises_of_mem (c := .storageErrors) ?_
        s.gate.metrics.raisesOnly_storageError ?_
      · simp [Counter.statuses, Wire.Response.error, hstatus]
      · intro p
        cases p <;> rfl
  | @answered u j gate _ response hauth hjob hrun =>
      have hcounts := j.run_counts s.gate d chance
      rw [hrun] at hcounts
      have hmetrics : gate.metrics = s.gate.metrics.batch j.batch chance.nanos := hcounts
      have hstatus := Job.status_of_run (congrArg (·.2.2) hrun)
      have hkeys := Call.keyCount_of_admitted (Call.admitted_of_job hjob)
      rw [hmetrics]
      refine Metrics.raises_of_mem hstatus (s.gate.metrics.raisesOnly_batch _ _) ?_
      intro p
      rw [Metrics.keys_batch, hkeys, if_pos rfl]

theorem handle_raises (s : Service) (d : Disk) (chance : Chance) (name password : String)
    (call : Call) :
    s.gate.metrics.Raises call (s.handle d chance name password call).2.2.status
      (s.handle d chance name password call).1.gate.metrics :=
  (handle_outcome s d chance name password call).raises

/-! ## Calls after one another -/

/-- A call that has been handled, with the status of its response. -/
structure Handled where
  call : Call
  status : Nat

/-- A service has handled some calls, one after the other, whatever the disk was like each time. -/
inductive Handles (s : Service) : List Handled → Service → Prop where
  | nil : Handles s [] s
  | call {s' : Service} {done : List Handled} (h : Handles s done s') (d : Disk) (chance : Chance)
      (name password : String) (call : Call) :
      Handles s (done ++ [⟨call, (s'.handle d chance name password call).2.2.status⟩])
        (s'.handle d chance name password call).1

end Service

open Service (Handled)

/-- Whether a call that has been handled is counted by a counter. -/
def Counter.counts (c : Counter) (h : Handled) : Bool := decide (h.status ∈ c.statuses)

namespace Metrics

/-- The total of the keys of the calls that are counted as transactions, for one purpose. -/
def keyTotal (done : List Handled) (p : Purpose) : Nat :=
  ((done.filter Counter.transactions.counts).map (fun h => h.call.keyCount p)).sum

theorem keyTotal_concat (done : List Handled) (last : Handled) (p : Purpose) :
    keyTotal (done ++ [last]) p = keyTotal done p +
      if last.status ∈ Counter.transactions.statuses then last.call.keyCount p else 0 := by
  by_cases hc : last.status ∈ Counter.transactions.statuses
  · simp [keyTotal, Counter.counts, hc]
  · simp [keyTotal, Counter.counts, hc]

/-- What has been added to the counters by some calls: to each one the number of calls with its
statuses, which are all calls taken together, and to the numbers of keys those of the transactions.
All of them start over after the largest number. -/
structure Counts (done : List Handled) (m m' : Metrics) : Prop where
  count : ∀ c : Counter, m'.count c = m.count c + UInt64.ofNat (done.countP c.counts)
  calls : m'.calls = m.calls + UInt64.ofNat done.length
  keys : ∀ p, m'.keys p = m.keys p + UInt64.ofNat (keyTotal done p)

theorem Counts.nil : Counts [] m m where
  count c := by simp
  calls := by simp
  keys p := by simp [keyTotal]

/-- One more call adds to the counters what it raises. -/
theorem Counts.concat {done : List Handled} {m'' : Metrics} {last : Handled}
    (h : Counts done m m') (hlast : m'.Raises last.call last.status m'') :
    Counts (done ++ [last]) m m'' where
  count c := by
    rw [hlast.count, h.count, List.countP_append, List.countP_singleton, UInt64.ofNat_add]
    by_cases hc : last.status ∈ c.statuses
    · simp [Counter.counts, hc, UInt64.add_assoc]
    · simp [Counter.counts, hc]
  calls := by
    rcases hlast.raisesOnly with ⟨_, honly⟩
    rw [honly.calls, h.calls, List.length_append, UInt64.ofNat_add, UInt64.add_assoc]
    rfl
  keys p := by
    rw [hlast.keys, h.keys, keyTotal_concat, UInt64.ofNat_add]
    split
    · rw [UInt64.add_assoc]
    · simp

end Metrics

namespace Service

variable {s s' : Service} {done : List Handled}

theorem metrics_of_start {config : Config} (h : start d config = (d', .ok s)) :
    s.gate.metrics = .none := by
  unfold start at h
  split at h
  · cases h
  · split at h
    · cases h
    · split at h
      · cases h
      · cases h
        rfl

theorem Handles.counts (h : Handles s done s') :
    Metrics.Counts done s.gate.metrics s'.gate.metrics := by
  induction h with
  | nil => exact .nil
  | call _ d chance name password call ih =>
      exact ih.concat (handle_raises _ d chance name password call)

/-- After any calls the counters have been raised once for each of them, as its status says, from
zero if the service has just been started; and each further call raises one of them. -/
theorem counted_of_handles (h : Handles s done s') :
    Metrics.Counts done s.gate.metrics s'.gate.metrics ∧
      (∀ config d d', start d config = (d', .ok s) → s.gate.metrics = .none) ∧
        ∀ d chance name password call,
          s'.gate.metrics.Raises call (s'.handle d chance name password call).2.2.status
            (s'.handle d chance name password call).1.gate.metrics :=
  ⟨h.counts, fun _ _ _ => metrics_of_start, handle_raises s'⟩

/-- An update that is carried out and one of somebody unknown. -/
theorem handles_update : ∃ s', Handles firstService
    [⟨.update "/a" "v", 200⟩, ⟨.update "/a" "v", 401⟩] s' := by
  rcases run_update .empty with ⟨gate, d, hrun⟩
  have hfirst := Handles.nil.call .empty ⟨0, 0⟩ "u" "p" (.update "/a" "v") (s := firstService)
  rw [handle_of_run authenticate_firstUser rfl hrun] at hfirst
  exact ⟨_, hfirst.call d ⟨0, 0⟩ "x" "p" (.update "/a" "v")⟩

/-- Of two updates, one of which is refused, one is counted as a transaction with its key, and the
other one as a failure to authenticate. -/
theorem counted_of_handles_update :
    ∃ s', Handles firstService [⟨.update "/a" "v", 200⟩, ⟨.update "/a" "v", 401⟩] s' ∧
      s'.gate.metrics.calls = 2 ∧ s'.gate.metrics.transactions = 1 ∧
        s'.gate.metrics.authenticationFailures = 1 ∧ s'.gate.metrics.keysUpdated = 1 := by
  rcases handles_update with ⟨s', hhandles⟩
  have hcounts := (counted_of_handles hhandles).1
  have hkey : (Call.update "/a" "v").keyCount .update = 1 :=
    Call.keyCount_of_admitted (u := firstUser) (j := .update VersionedStore.firstKey "v")
      (Call.admitted_of_job rfl) .update
  have htotal : Metrics.keyTotal [⟨.update "/a" "v", 200⟩, ⟨.update "/a" "v", 401⟩] .update =
      1 := by
    simp [Metrics.keyTotal, Counter.counts, Counter.statuses, hkey]
  refine ⟨s', hhandles, hcounts.calls, hcounts.count .transactions,
    hcounts.count .authenticationFailures, ?_⟩
  have hkeys := hcounts.keys .update
  rw [htotal] at hkeys
  exact hkeys

end Service
end GuardedStore
