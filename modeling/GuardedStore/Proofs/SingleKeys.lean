import GuardedStore.Proofs.ConfiguredPolicy
import GuardedStore.Proofs.Jobs
import GuardedStore.Proofs.PlainStores
import GuardedStore.Proofs.TableOpening

/-!
# SingleKeys — calls for a single key agree with requests that name only that key

To read a key by itself is to look it up, and to read it by a request is to carry out a batch; the
two come to the same in a store that works (`Store.perform_reading`), whether it is open or closed.
Updates and deletions of a single key are the same batches as those of the requests, so as soon as
both are admitted nothing tells them apart but the response.

A store works if it makes an attempt at all, or if its database can be changed by whoever connects
to it; that is so of whatever has been asked of a store since it was opened (`Store.Works.after`).
-/

namespace GuardedStore

open Wire (Request Response ErrorReport)

/-! ## Requests that name one key -/

namespace Wire.Request

/-- The request to read what a text names. -/
def reading (raw : String) : Request := ⟨.singleton raw (), .empty, .empty⟩

def updating (raw value : String) : Request := ⟨.empty, .put .empty raw value, .empty⟩

def deleting (raw : String) : Request := ⟨.empty, .empty, .singleton raw ()⟩

end Wire.Request

namespace User

theorem authorizeAll_single {α : Type} (u : User) (action : Action) (raw : String) (a : α) :
    u.authorizeAll action [(raw, a)] =
      match u.authorize action raw with
      | .ok key => ([(key, a)], [])
      | .error e => ([], [e]) := rfl

/-- A request to read one key is admitted as a look-up of that key is. -/
theorem batchOf_reading (u : User) (raw : String) :
    u.batchOf (.reading raw) =
      match u.authorize .read raw with
      | .ok key => .ok (.reading key)
      | .error e => .error [e] := by
  have hread : (Request.reading raw).read.toList = [(raw, ())] := rfl
  simp only [batchOf, hread, authorizeAll_single]
  cases u.authorize .read raw <;> rfl

theorem batchOf_updating (u : User) (raw value : String) :
    u.batchOf (.updating raw value) =
      match u.authorize .read raw with
      | .ok key => .ok (.updating key value)
      | .error e => .error [e] := by
  have hupdate : (Request.updating raw value).update.toList = [(raw, value)] := rfl
  simp only [batchOf, hupdate, authorizeAll_single]
  cases u.authorize .read raw <;> rfl

theorem batchOf_deleting (u : User) (raw : String) :
    u.batchOf (.deleting raw) =
      match u.authorize .write raw with
      | .ok key => .ok (.deleting key)
      | .error e => .error [e] := by
  have hdelete : (Request.deleting raw).delete.toList = [(raw, ())] := rfl
  simp only [batchOf, hdelete, authorizeAll_single]
  cases u.authorize .write raw <;> rfl

end User

/-! ## Stores that work -/

/-- The values that are read of a single key. -/
def Values.ofOption (key : Key) : Option String → Values
  | some value => .singleton key value
  | none => .empty

theorem Batch.readFrom_reading (key : Key) (contents : SortedMap String String) :
    (Batch.reading key).readFrom contents = Values.ofOption key (contents.get? key.text) := by
  have hkeys : (Batch.reading key).read.keys = [key] := rfl
  rw [readFrom, hkeys, readValues, List.foldl_cons, List.foldl_nil]
  cases contents.get? key.text <;> rfl

/-- A store that makes at least one attempt at each batch, or whose database can be changed by
whoever connects to it. -/
def Store.Works (d : Disk) : Store → Prop
  | .versioned s => 0 < s.maxAttempts
  | .tabular s => Table.Changeable s.path d

namespace VersionedStore

variable {s : VersionedStore} {d : Disk} {key : Key} {b : Batch}

/-- What is looked up is what a batch reads. -/
theorem get_eq (s : VersionedStore) (key : Key) :
    s.get key = if s.closed then .error .closed else .ok (s.committed.contents.get? key.text) := by
  have hvalue : s.committed.view.value? key.text = s.committed.contents.get? key.text :=
    (SortedMap.get?_mapValues Versioned.Entry.value s.committed.entries key.text).symm
  cases hclosed : s.closed with
  | true => simp only [get, begin, ensureOpen_of_closed hclosed, if_true]
  | false =>
      simp only [get, begin, ensureOpen_of_open hclosed, hvalue, Bool.false_eq_true, if_false]

theorem perform_reading (hattempts : 0 < s.maxAttempts) :
    s.perform d (.reading key) = (s, d, (s.get key).map (Values.ofOption key)) := by
  rw [get_eq]
  cases hclosed : s.closed with
  | true =>
      rw [perform_closed hclosed hattempts]
      rfl
  | false =>
      rw [perform_readOnly hclosed hattempts rfl, Batch.readFrom_reading]
      rfl

theorem maxAttempts_perform (hattempts : 0 < s.maxAttempts) (d : Disk) (b : Batch) :
    (s.perform d b).1.maxAttempts = s.maxAttempts := by
  rw [perform_eq_attempt hattempts]
  cases hopen : s.closed with
  | true => rw [attempt_of_closed hopen]
  | false =>
      cases hwrite : b.isReadOnly with
      | true => rw [attempt_of_isReadOnly hopen hwrite]
      | false =>
          cases hlog : s.log.append d (s.committed.seq + 1) b.change with
          | error e => rw [attempt_of_unlogged hopen hwrite hlog]
          | ok r => rw [attempt_of_logged hopen hwrite hlog]

end VersionedStore

namespace TabularStore

variable {s : TabularStore} {d : Disk} {key : Key}

theorem perform_reading (h : Table.Changeable s.path d) (key : Key) :
    (s.perform d (.reading key)).2 = (s.get d key).2.map (Values.ofOption key) := by
  simp only [perform, get, query]
  rcases hconnect : s.connectOpen d with ⟨d', e | c⟩
  · rfl
  · have hmay : c.MayChange d' := by
      unfold connectOpen at hconnect
      split at hconnect
      · cases hconnect
      · exact h.connected hconnect
    rcases hmay with ⟨hbegin, hsave⟩
    simp only [hbegin]
    cases rows c.image with
    | error e => rfl
    | ok table =>
        rcases hsave { c.image with rows := some ((Batch.reading key).writeTo table) } with
          ⟨d'', hsaved⟩
        simp only [hsaved, Batch.readFrom_reading]
        rfl

end TabularStore

namespace Store

variable {s : Store} {d d' : Disk}

/-- A batch that reads one key comes to what looking it up comes to. -/
theorem perform_reading (hworks : s.Works d) (key : Key) :
    (s.perform d (.reading key)).2.2 = (s.get d key).2.map (Values.ofOption key) := by
  cases s with
  | versioned s => exact congrArg (fun r => r.2.2) (VersionedStore.perform_reading hworks)
  | tabular s => exact TabularStore.perform_reading hworks key

/-- A store that has been opened works. -/
theorem works_of_openAt {kind : StoreKind} {path : String} {settings : StorageSettings}
    (hopen : openAt d kind path settings = (d', .ok s))
    (hroom : kind = .tabular → Table.HasRoom path d') : s.Works d' := by
  cases kind with
  | versioned =>
      rcases versioned_of_openAt hopen with ⟨v, rfl, hresult⟩
      exact (VersionedStore.ready_of_openAt hresult).2
  | tabular =>
      rcases tabular_of_openAt hopen with ⟨t, rfl, hresult⟩
      have hpath : t.path = path := by
        rcases Table.openAt_ok hresult with ⟨_, _, _, _, _, _, -, -, -, -, -, -, rfl⟩
        rfl
      have hchangeable := Table.changeable_of_openAt hresult (hroom rfl)
      rwa [← hpath] at hchangeable

namespace Works

theorem carryOut (h : s.Works d) (c : StoreCall) :
    (s.carryOut d c).1.Works (s.carryOut d c).2.1 := by
  cases s with
  | versioned s =>
      cases c with
      | query q => exact h
      | perform b => exact Nat.lt_of_lt_of_eq h (VersionedStore.maxAttempts_perform h d b).symm
      | close => exact h
  | tabular s =>
      cases c with
      | query q =>
          refine Table.Changeable.keep h ?_
          intro names hnames
          simp only [Store.carryOut, TabularStore.ask_eq_query]
          exact TabularStore.steady_query hnames d _
      | perform b =>
          exact Table.Changeable.keep h fun _ hnames => TabularStore.steady_perform hnames d b
      | close =>
          have hchangeable := Table.Changeable.keep h
            fun _ hnames => TabularStore.steady_close hnames d
          rwa [← s.path_close d] at hchangeable

/-- Whatever is requested of a store that works, it goes on working. -/
theorem after (h : s.Works d) (requests : List StoreRequest) :
    (s.after d requests).1.Works (s.after d requests).2 := by
  induction requests generalizing s d with
  | nil => exact h
  | cons r rest ih =>
      cases r with
      | isClosed => exact ih h
      | call c => exact ih (h.carryOut c)

end Works
end Store

/-! ## Calls and requests -/

open Wire (Message)

/-- How to read a text and to request what it names may be answered. -/
inductive ReadAnswers (raw : String) :
    Except StoreError Response → Except StoreError Response → Prop where
  | refused {e : StoreError} (hstatus : e.status = 400) :
      ReadAnswers raw (.ok (.error e)) (.ok (.rejection [e]))
  | failed (e : StoreError) : ReadAnswers raw (.error e) (.error e)
  | found {key : Key} (hkey : Key.create raw = .ok key) (value : String) :
      ReadAnswers raw (.ok (.text value)) (.ok (.values (.singleton key.text value)))
  | missing (key : Key) :
      ReadAnswers raw (.ok (.error (.notFound key.text))) (.ok (.values .empty))

@[simp] theorem StoreError.status_notFound (name : String) :
    (StoreError.notFound name).status = 404 := rfl

namespace ReadAnswers

variable {raw : String} {r r' : Except StoreError Response}

theorem text_iff (h : ReadAnswers raw r r') (value : String) :
    r = .ok (.text value) ↔
      ∃ key, Key.create raw = .ok key ∧ r' = .ok (.values (.singleton key.text value)) := by
  cases h with
  | refused hstatus => simp [Response.error, Response.text, Response.rejection, Response.values]
  | failed e => simp
  | found hkey value' =>
      simp [Response.text, Response.values, hkey, SortedMap.singleton]
  | missing key =>
      simp [Response.error, Response.text, Response.values, SortedMap.singleton, SortedMap.empty]

theorem missing_iff (h : ReadAnswers raw r r') :
    (∃ response, r = .ok response ∧ response.status = 404) ↔ r' = .ok (.values .empty) := by
  cases h with
  | refused hstatus => simp [Response.error, Response.rejection, Response.values, hstatus]
  | failed e => simp
  | found hkey value =>
      simp [Response.text, Response.values, SortedMap.singleton, SortedMap.empty]
  | missing key => simp [Response.error]

theorem rejected_iff (h : ReadAnswers raw r r') :
    (∃ response, r = .ok response ∧ response.status = 400) ↔
      ∃ response, r' = .ok response ∧ response.status = 400 := by
  cases h with
  | refused hstatus => simp [Response.error, Response.rejection, hstatus]
  | failed e => simp
  | found hkey value => simp [Response.text, Response.values]
  | missing key => simp [Response.error, Response.values]

theorem report_iff (h : ReadAnswers raw r r') (report : ErrorReport) :
    r = .ok ⟨400, .message (.error report)⟩ ↔ r' = .ok ⟨400, .message (.errors ⟨[report]⟩)⟩ := by
  cases h with
  | refused hstatus => simp [Response.error, Response.rejection, hstatus]
  | failed e => simp
  | found hkey value => simp [Response.text, Response.values]
  | missing key => simp [Response.error, Response.values]

theorem error_iff (h : ReadAnswers raw r r') (e : StoreError) : r = .error e ↔ r' = .error e := by
  cases h <;> simp

end ReadAnswers

/-- To read a text and to request what it names are answered alike, and count alike. -/
structure ReadsAlike (raw : String) (read request : Gate × Disk × Except StoreError Response) :
    Prop where
  text : ∀ value, read.2.2 = .ok (.text value) ↔
    ∃ key, Key.create raw = .ok key ∧ request.2.2 = .ok (.values (.singleton key.text value))
  missing : (∃ response, read.2.2 = .ok response ∧ response.status = 404) ↔
    request.2.2 = .ok (.values .empty)
  rejected : (∃ response, read.2.2 = .ok response ∧ response.status = 400) ↔
    ∃ response, request.2.2 = .ok response ∧ response.status = 400
  report : ∀ report, read.2.2 = .ok ⟨400, .message (.error report)⟩ ↔
    request.2.2 = .ok ⟨400, .message (.errors ⟨[report]⟩)⟩
  failed : ∀ e, read.2.2 = .error e ↔ request.2.2 = .error e
  counted : read.1.metrics = request.1.metrics

/-- To change what a text names and to request that change are admitted alike and come to the same:
the store, what is counted, and the disk. -/
structure ChangesAlike (change request : Gate × Disk × Except StoreError Response) : Prop where
  done : change.2.2 = .ok .empty ↔ ∃ values, request.2.2 = .ok (.values values)
  rejected : (∃ response, change.2.2 = .ok response ∧ response.status = 400) ↔
    ∃ response, request.2.2 = .ok response ∧ response.status = 400
  report : ∀ report, change.2.2 = .ok ⟨400, .message (.error report)⟩ ↔
    request.2.2 = .ok ⟨400, .message (.errors ⟨[report]⟩)⟩
  failed : ∀ e, change.2.2 = .error e ↔ request.2.2 = .error e
  gate : change.1 = request.1
  disk : change.2.1 = request.2.1

/-! ## The gate -/

namespace Gate

variable {g : Gate} {d : Disk} {chance : Chance} {u : User} {raw : String}

/-- A batch that reads one key is carried out as a look-up is, and counts as one. -/
theorem perform_reading (hworks : g.store.Works d) (chance : Chance) (key : Key) :
    (g.perform d chance (.reading key)).2.2 =
        (g.look d chance key).2.2.map (Values.ofOption key) ∧
      (g.perform d chance (.reading key)).1.metrics = (g.look d chance key).1.metrics := by
  have hread := Store.perform_reading hworks key
  unfold perform look
  split
  · exact ⟨rfl, rfl⟩
  · rcases hperform : g.store.perform d (.reading key) with ⟨s, d₁, r⟩
    rcases hget : g.store.get d key with ⟨d₂, e | found⟩
    · rw [hperform, hget] at hread
      cases hread
      exact ⟨rfl, rfl⟩
    · rw [hperform, hget] at hread
      cases hread
      exact ⟨rfl, rfl⟩

theorem readAnswers (hworks : g.store.Works d) (chance : Chance) (u : User) (raw : String) :
    ReadAnswers raw (g.read d chance u raw).2.2 (g.request d chance u (.reading raw)).2.2 := by
  have hbatch := u.batchOf_reading raw
  cases hkey : u.authorize .read raw with
  | error e =>
      rw [hkey] at hbatch
      simp only [read, request, hkey, hbatch, reject]
      exact .refused (User.status_of_authorize hkey)
  | ok key =>
      rw [hkey] at hbatch
      simp only [read, request, hkey, hbatch, (perform_reading hworks chance key).1]
      rcases (g.look d chance key).2.2 with e | _ | value
      · exact .failed e
      · exact .missing key
      · exact .found (User.authorize_eq_ok_iff.1 hkey).1 value

theorem counted_reading (hworks : g.store.Works d) (chance : Chance) (u : User) (raw : String) :
    (g.read d chance u raw).1.metrics = (g.request d chance u (.reading raw)).1.metrics := by
  have hbatch := u.batchOf_reading raw
  cases hkey : u.authorize .read raw with
  | error e =>
      rw [hkey] at hbatch
      simp only [read, request, hkey, hbatch, reject]
  | ok key =>
      rw [hkey] at hbatch
      simp only [read, request, hkey, hbatch]
      exact (perform_reading hworks chance key).2.symm

theorem readsAlike (hworks : g.store.Works d) (chance : Chance) (u : User) (raw : String) :
    ReadsAlike raw (g.read d chance u raw) (g.request d chance u (.reading raw)) := by
  have hanswers := readAnswers hworks chance u raw
  exact ⟨hanswers.text_iff, hanswers.missing_iff, hanswers.rejected_iff, hanswers.report_iff,
    hanswers.error_iff, counted_reading hworks chance u raw⟩

theorem changesAlike_of_refused {e : StoreError} (hstatus : e.status = 400) :
    ChangesAlike ((g.reject (.error e)).1, d, .ok (.error e))
      ((g.reject (.rejection [e])).1, d, .ok (.rejection [e])) := by
  constructor <;> simp [Response.error, Response.empty, Response.rejection, Response.values, reject,
    hstatus]

theorem changesAlike_of_performed (performed : Gate × Disk × Except StoreError Values) :
    ChangesAlike (performed.1, performed.2.1, performed.2.2.map (fun _ => .empty))
      (performed.1, performed.2.1,
        performed.2.2.map (fun values => .values (resultOf values))) := by
  rcases performed with ⟨g, d, e | values⟩
  · constructor <;> simp [Except.map]
  · constructor <;> simp [Except.map, Response.empty, Response.values]

theorem deletesAlike (g : Gate) (d : Disk) (chance : Chance) (u : User) (raw : String) :
    ChangesAlike (g.delete d chance u raw) (g.request d chance u (.deleting raw)) := by
  have hbatch := u.batchOf_deleting raw
  cases hkey : u.authorize .write raw with
  | error e =>
      rw [hkey] at hbatch
      simp only [delete, request, hkey, hbatch]
      exact changesAlike_of_refused (User.status_of_authorize hkey)
  | ok key =>
      rw [hkey] at hbatch
      simp only [delete, request, hkey, hbatch]
      exact changesAlike_of_performed _

/-- Requests to update need a grant for reading, other updates one for writing. -/
theorem updatesAlike (g : Gate) (d : Disk) (chance : Chance) (value : String)
    (hgranted : ∀ key, Key.create raw = .ok key →
      u.allows .read key = true ∧ u.allows .write key = true) :
    ChangesAlike (g.update d chance u raw value)
      (g.request d chance u (.updating raw value)) := by
  have hbatch := u.batchOf_updating raw value
  have hsame : u.authorize .read raw = u.authorize .write raw := by
    cases hcreate : Key.create raw with
    | error fault => simp only [User.authorize, hcreate]
    | ok key =>
        rcases hgranted key hcreate with ⟨hread, hwrite⟩
        simp only [User.authorize, hcreate, hread, hwrite, if_true]
  rw [hsame] at hbatch
  cases hkey : u.authorize .write raw with
  | error e =>
      rw [hkey] at hbatch
      simp only [update, request, hkey, hbatch]
      exact changesAlike_of_refused (User.status_of_authorize hkey)
  | ok key =>
      rw [hkey] at hbatch
      simp only [update, request, hkey, hbatch]
      exact changesAlike_of_performed _

/-- Calls for a single key and requests that name only that key agree. -/
structure Agrees (g : Gate) (d : Disk) (chance : Chance) (u : User) (raw value : String) :
    Prop where
  reads : ReadsAlike raw (g.read d chance u raw) (g.request d chance u (.reading raw))
  deletes : ChangesAlike (g.delete d chance u raw) (g.request d chance u (.deleting raw))
  updates : (∀ key, Key.create raw = .ok key →
      u.allows .read key = true ∧ u.allows .write key = true) →
    ChangesAlike (g.update d chance u raw value) (g.request d chance u (.updating raw value))

theorem agrees_of_works (hworks : g.store.Works d) (chance : Chance) (u : User)
    (raw value : String) : g.Agrees d chance u raw value :=
  ⟨readsAlike hworks chance u raw, g.deletesAlike d chance u raw, g.updatesAlike d chance value⟩

/-- Calls and requests agree on a store of either kind, whatever has been asked of it since it was
opened, for every user and every text.  A table needs room for its changes, which is there if no log
was left beside its file (`Table.hasRoom_of_openAt`). -/
theorem agrees_of_openAt {d₁ : Disk} {kind : StoreKind} {path : String}
    {settings : StorageSettings} {s : Store}
    (hopen : Store.openAt d kind path settings = (d₁, .ok s))
    (hroom : kind = .tabular → Table.HasRoom path d₁) (requests : List StoreRequest)
    (faults : FaultInjection) (metrics : Metrics) (chance : Chance) (u : User)
    (raw value : String) :
    Gate.Agrees ⟨(s.after d₁ requests).1, faults, metrics⟩ (s.after d₁ requests).2 chance u raw
      value :=
  agrees_of_works ((Store.works_of_openAt hopen hroom).after requests) chance u raw value

/-- A table with one value, of which the user may read and change the key. -/
theorem agrees_of_openAt_table :
    ∃ d₁ s, Store.openAt .empty .tabular "table" .standard = (d₁, .ok s) ∧
      Table.HasRoom "table" d₁ ∧
      Gate.Agrees
        ⟨(s.after d₁ [.call (.perform (.updating VersionedStore.firstKey "v"))]).1, .disabled,
          .none⟩
        (s.after d₁ [.call (.perform (.updating VersionedStore.firstKey "v"))]).2 ⟨0, 0⟩
        (Config.writer (.hashed .standard "p" [])) "/a" "w" := by
  have hstored : ∃ d s, Store.openAt .empty .tabular "table" .standard = (d, .ok s) := ⟨_, _, rfl⟩
  rcases hstored with ⟨d₁, s, hopen⟩
  rcases Store.tabular_of_openAt hopen with ⟨t, rfl, hresult⟩
  have hroom : Table.HasRoom "table" d₁ := by
    refine Table.hasRoom_of_openAt Disk.isSound_empty hresult ?_
    intro names hnames
    cases hnames
    exact .inl rfl
  exact ⟨d₁, _, hopen, hroom, agrees_of_openAt hopen (fun _ => hroom) _ _ _ _ _ _ _⟩

end Gate
end GuardedStore
