import GuardedStore.Proofs.CutLogs
import GuardedStore.Proofs.Interleaving
import GuardedStore.Proofs.NamedValues
import GuardedStore.Proofs.StoreContents
import GuardedStore.Proofs.TableService

/-!
# PlainStores — stores of both kinds answer as one map does

A plain store is a map of keys to values and a flag that says whether it is closed.  A store that
keeps the values of a plain store under the texts of their keys answers each request as the plain
store does, and keeps what the plain store has then (`Simulates`); so it answers every sequence of
requests alike (`Simulates.replies_eq`).

Both kinds of stores simulate a plain store from the time when they are new: the versioned one
except that it refuses batches whose commits do not fit a frame, and those leave it as it is; the
tabular one without exception (`Store.answers_of_new`).
-/

namespace GuardedStore

open Versioned

/-! ## Requests and replies -/

/-- What a store may be asked to do. -/
inductive StoreRequest where
  | call (c : StoreCall)
  | isClosed

/-- Why a request is refused. -/
inductive Refusal where
  | closed
  -- by the rules of the store
  | storage
  | other
  deriving Repr, DecidableEq

def StoreError.refusal : StoreError → Refusal
  | .closed => .closed
  | .storage _ => .storage
  | _ => .other

inductive StoreReply where
  | answer (r : Except Refusal Answer)
  | flag (closed : Bool)

/-- Whether a batch has nothing to commit, or a commit that fits a frame. -/
def Batch.fits (b : Batch) : Bool := b.isReadOnly || decide b.change.Fits

/-- A batch that only reads makes the same of the values. -/
theorem Batch.applyTo_of_isReadOnly {b : Batch} (hread : b.isReadOnly = true) (values : Values) :
    b.applyTo values = values := by
  refine SortedMap.named_injective ?_
  rw [← Batch.writeTo_named, Batch.writeTo_of_isReadOnly hread]

/-- Whether the batch of a request fits, if it has one. -/
def StoreRequest.fits : StoreRequest → Bool
  | call (.perform b) => b.fits
  | _ => true

/-! ## Plain stores -/

/-- A map of keys to values, and whether it is closed. -/
structure PlainStore where
  values : Values
  closed : Bool

namespace PlainStore

def empty : PlainStore := ⟨.empty, false⟩

def ask (p : PlainStore) : Query → Answer
  | .value key => .value (p.values.get? key)
  | .all => .values p.values
  | .dataSize => .amount (p.values.total String.utf8ByteSize)
  | .keyCount => .amount p.values.size

/-- What a call comes to, if some batches are accepted and the others are not. -/
def carryOut (accepts : Batch → Bool) (p : PlainStore) :
    StoreCall → PlainStore × Except Refusal Answer
  | .query q => (p, if p.closed then .error .closed else .ok (p.ask q))
  | .perform b =>
    if p.closed then (p, .error .closed)
    else if accepts b then
      ({ p with values := b.applyTo p.values }, .ok (.values (b.select p.values)))
    else (p, .error .storage)
  | .close => ({ p with closed := true }, .ok .done)

section
variable {accepts : Batch → Bool} {p : PlainStore} {b : Batch}

theorem perform_of_closed (hclosed : p.closed = true) :
    p.carryOut accepts (.perform b) = (p, .error .closed) := if_pos hclosed

theorem perform_of_accepted (hopen : p.closed = false) (haccepts : accepts b = true) :
    p.carryOut accepts (.perform b) =
      ({ p with values := b.applyTo p.values }, .ok (.values (b.select p.values))) := by
  simp only [carryOut, hopen, haccepts, Bool.false_eq_true, if_false, if_true]

theorem perform_of_refused (hopen : p.closed = false) (hrefused : accepts b = false) :
    p.carryOut accepts (.perform b) = (p, .error .storage) := by
  simp only [carryOut, hopen, hrefused, Bool.false_eq_true, if_false]

end

def reply (accepts : Batch → Bool) (p : PlainStore) : StoreRequest → PlainStore × StoreReply
  | .call c => ((p.carryOut accepts c).1, .answer (p.carryOut accepts c).2)
  | .isClosed => (p, .flag p.closed)

/-- The replies to some requests, one after the other. -/
def replies (accepts : Batch → Bool) (p : PlainStore) : List StoreRequest → List StoreReply
  | [] => []
  | r :: rest => (p.reply accepts r).2 :: (p.reply accepts r).1.replies accepts rest

/-- It does not matter to requests that fit whether others would be accepted. -/
theorem replies_of_fits {requests : List StoreRequest} (p : PlainStore)
    (hfits : ∀ r ∈ requests, r.fits = true) :
    p.replies Batch.fits requests = p.replies (fun _ => true) requests := by
  induction requests generalizing p with
  | nil => rfl
  | cons r rest ih =>
      have hsame : p.reply Batch.fits r = p.reply (fun _ => true) r := by
        have hfirst := hfits r (by simp)
        cases r with
        | isClosed => rfl
        | call c =>
            cases c with
            | query q => rfl
            | close => rfl
            | perform b =>
                have hb : b.fits = true := hfirst
                simp only [reply, carryOut, hb]
      rw [replies, replies, hsame, ih _ (fun r' hr' => hfits r' (by simp [hr']))]

end PlainStore

/-! ## What stores reply -/

namespace Store

def ask (s : Store) (d : Disk) : Query → Disk × Except StoreError Answer
  | .value key => ((s.get d key).1, (s.get d key).2.map .value)
  | .all => ((s.all d).1, (s.all d).2.map .values)
  | .dataSize => ((s.dataSize d).1, (s.dataSize d).2.map .amount)
  | .keyCount => ((s.keyCount d).1, (s.keyCount d).2.map .amount)

def carryOut (s : Store) (d : Disk) : StoreCall → Store × Disk × Except StoreError Answer
  | .query q => (s, s.ask d q)
  | .perform b => ((s.perform d b).1, (s.perform d b).2.1, (s.perform d b).2.2.map .values)
  | .close => ((s.close d).1, (s.close d).2.1, (s.close d).2.2.map (fun _ => .done))

def reply (s : Store) (d : Disk) : StoreRequest → Store × Disk × StoreReply
  | .call c => ((s.carryOut d c).1, (s.carryOut d c).2.1,
      .answer ((s.carryOut d c).2.2.mapError StoreError.refusal))
  | .isClosed => (s, d, .flag s.isClosed)

/-- The replies to some requests, one after the other. -/
def replies (s : Store) (d : Disk) : List StoreRequest → List StoreReply
  | [] => []
  | r :: rest => (s.reply d r).2.2 :: (s.reply d r).1.replies (s.reply d r).2.1 rest

/-- The store and the disk after some requests. -/
def after (s : Store) (d : Disk) : List StoreRequest → Store × Disk
  | [] => (s, d)
  | r :: rest => (s.reply d r).1.after (s.reply d r).2.1 rest

end Store

/-! ## Simulation -/

section Simulation

variable {R : Store → Disk → PlainStore → Prop} {accepts : Batch → Bool} {s : Store} {d : Disk}
  {p : PlainStore}

/-- A call comes to the same, and what is kept afterwards as well. -/
structure Agreeing (R : Store → Disk → PlainStore → Prop)
    (r : Store × Disk × Except StoreError Answer) (r' : PlainStore × Except Refusal Answer) :
    Prop where
  kept : R r.1 r.2.1 r'.1
  answer : r.2.2.mapError StoreError.refusal = r'.2

/-- Stores that keep what plain stores have do what these do. -/
structure Simulates (accepts : Batch → Bool) (R : Store → Disk → PlainStore → Prop) : Prop where
  closed : ∀ {s d p}, R s d p → s.isClosed = p.closed
  step : ∀ {s d p}, R s d p → ∀ c, Agreeing R (s.carryOut d c) (p.carryOut accepts c)

namespace Simulates

theorem reply (hsim : Simulates accepts R) (h : R s d p) (r : StoreRequest) :
    R (s.reply d r).1 (s.reply d r).2.1 (p.reply accepts r).1 ∧
      (s.reply d r).2.2 = (p.reply accepts r).2 := by
  cases r with
  | isClosed => exact ⟨h, congrArg StoreReply.flag (hsim.closed h)⟩
  | call c =>
      rcases hsim.step h c with ⟨hkept, hanswer⟩
      exact ⟨hkept, congrArg StoreReply.answer hanswer⟩

/-- All requests are answered alike. -/
theorem replies_eq (hsim : Simulates accepts R) (h : R s d p) (requests : List StoreRequest) :
    s.replies d requests = p.replies accepts requests := by
  induction requests generalizing s d p with
  | nil => rfl
  | cons r rest ih =>
      rcases hsim.reply h r with ⟨hkept, hreply⟩
      rw [Store.replies, PlainStore.replies, hreply, ih hkept]

/-- Whatever has been requested, a plain store is simulated. -/
theorem exists_after (hsim : Simulates accepts R) (h : R s d p) (requests : List StoreRequest) :
    ∃ p', R (s.after d requests).1 (s.after d requests).2 p' := by
  induction requests generalizing s d p with
  | nil => exact ⟨p, h⟩
  | cons r rest ih => exact ih (hsim.reply h r).1

end Simulates
end Simulation

/-! ## Versioned stores -/

namespace VersionedStore

/-- The store keeps the values of a plain store in memory, and commits can be logged. -/
structure Keeps (s : VersionedStore) (p : PlainStore) : Prop where
  closed : s.closed = p.closed
  contents : s.committed.contents = p.values.named
  sized : s.committed.Sized
  intact : s.log.poisoned = false
  attempts : 0 < s.maxAttempts

/-- A store of this kind that keeps the values of a plain store. -/
def Represents (s : Store) (_ : Disk) (p : PlainStore) : Prop :=
  ∃ v, s = .versioned v ∧ v.Keeps p

variable {s : VersionedStore} {d : Disk} {p : PlainStore}

namespace Keeps

theorem answer (h : s.Keeps p) (q : Query) : q.answer s.committed = .ok (p.ask q) := by
  cases q with
  | value key =>
      have hvalue : s.committed.view.value? key.text = p.values.get? key := by
        calc
          s.committed.view.value? key.text = s.committed.contents.get? key.text :=
            (SortedMap.get?_mapValues Entry.value s.committed.entries key.text).symm
          _ = p.values.named.get? key.text := by rw [h.contents]
          _ = p.values.get? key := SortedMap.get?_named p.values key
      simp only [Query.answer, hvalue, PlainStore.ask]
  | all =>
      have hstored : s.committed.view.snapshot.toList.map (fun e => (e.1, e.2.value)) =
          p.values.named.toList := congrArg SortedMap.toList h.contents
      simp only [Query.answer, hstored, readStored_named, PlainStore.ask]
      rfl
  | dataSize =>
      have hsize : s.committed.valueBytes = p.values.total String.utf8ByteSize := by
        calc
          s.committed.valueBytes = s.committed.contents.total String.utf8ByteSize := h.sized
          _ = p.values.named.total String.utf8ByteSize := by rw [h.contents]
          _ = p.values.total String.utf8ByteSize := SortedMap.total_named _ _
      simp only [Query.answer, hsize, PlainStore.ask]
  | keyCount =>
      have hcount : s.committed.entries.size = p.values.size := by
        calc
          s.committed.entries.size = s.committed.contents.size := Committed.size_eq s.committed
          _ = p.values.named.size := by rw [h.contents]
          _ = p.values.size := SortedMap.size_named p.values
      simp only [Query.answer, hcount, PlainStore.ask]

theorem ask (h : s.Keeps p) (q : Query) :
    (s.ask q).mapError StoreError.refusal =
      if p.closed then .error .closed else .ok (p.ask q) := by
  rw [← h.closed]
  cases hclosed : s.closed with
  | true =>
      rw [ask_of_closed (ensureOpen_of_closed hclosed)]
      rfl
  | false =>
      rw [ask_of_open (ensureOpen_of_open hclosed), h.answer]
      rfl

theorem close (h : s.Keeps p) : s.close.Keeps { p with closed := true } :=
  ⟨rfl, h.contents, h.sized, h.intact, h.attempts⟩

/-- The values are those that the batch makes of the old ones once its commit is logged. -/
theorem committing (h : s.Keeps p) (b : Batch) :
    (s.committing b.change).Keeps { p with values := b.applyTo p.values } := by
  refine ⟨h.closed, ?_, h.sized.apply _ _, h.intact, h.attempts⟩
  calc
    (s.committing b.change).committed.contents = b.change.writeTo s.committed.contents :=
      Committed.contents_apply _ _ _
    _ = b.writeTo p.values.named := by rw [writeTo_change, h.contents]
    _ = (b.applyTo p.values).named := b.writeTo_named p.values

theorem valuesOf (h : s.Keeps p) (b : Batch) :
    b.readFrom s.committed.contents = b.select p.values := by
  rw [h.contents, Batch.readFrom_named]

/-- A batch whose commit does not fit is refused, and nothing is changed. -/
theorem perform_large (h : s.Keeps p) (hopen : s.closed = false) {b : Batch}
    (hlarge : b.fits = false) :
    s.perform d b = (s, d, .error (.storage (.largeCommit (s.committed.seq + 1)))) := by
  simp only [Batch.fits, Bool.or_eq_false_iff, decide_eq_false_iff_not] at hlarge
  exact VersionedStore.perform_large hopen h.attempts hlarge.1 h.intact hlarge.2

theorem perform (h : s.Keeps p) (d : Disk) (b : Batch) :
    Agreeing Represents ((Store.versioned s).carryOut d (.perform b))
      (p.carryOut Batch.fits (.perform b)) := by
  have hcarry : ∀ {s' d' answer}, s.perform d b = (s', d', answer) →
      (Store.versioned s).carryOut d (.perform b) =
        (.versioned s', d', answer.map Answer.values) := by
    intro s' d' answer hperform
    simp only [Store.carryOut, Store.perform, hperform]
  cases hopen : s.closed with
  | true =>
      rw [hcarry (perform_closed hopen h.attempts),
        PlainStore.perform_of_closed (h.closed.symm.trans hopen)]
      exact ⟨⟨s, rfl, h⟩, rfl⟩
  | false =>
      have hopen' : p.closed = false := h.closed.symm.trans hopen
      cases hfits : b.fits with
      | false =>
          rw [hcarry (h.perform_large hopen hfits), PlainStore.perform_of_refused hopen' hfits]
          exact ⟨⟨s, rfl, h⟩, rfl⟩
      | true =>
          rw [PlainStore.perform_of_accepted hopen' hfits, ← h.valuesOf b]
          cases hwrite : b.isReadOnly with
          | true =>
              rw [hcarry (perform_readOnly hopen h.attempts hwrite), b.applyTo_of_isReadOnly hwrite]
              exact ⟨⟨s, rfl, h⟩, rfl⟩
          | false =>
              have hroom : b.change.Fits := by
                simpa [Batch.fits, hwrite] using hfits
              rw [hcarry (perform_fits hopen h.attempts hwrite h.intact hroom)]
              exact ⟨⟨_, rfl, h.committing b⟩, rfl⟩

end Keeps

theorem simulates : Simulates Batch.fits Represents := by
  constructor
  · rintro _ d p ⟨s, rfl, h⟩
    exact h.closed
  · rintro _ d p ⟨s, rfl, h⟩ c
    cases c with
    | query q =>
        have hask : (Store.versioned s).ask d q = (d, s.ask q) := by cases q <;> rfl
        simp only [Store.carryOut, hask]
        exact ⟨⟨s, rfl, h⟩, h.ask q⟩
    | perform b => exact h.perform d b
    | close => exact ⟨⟨s.close, rfl, h.close⟩, rfl⟩

/-- A store that is opened on a fresh file keeps no values. -/
theorem keeps_of_isFresh {d' : Disk} {path : String} {settings : StorageSettings}
    (hfresh : d.IsFresh path) (hopen : openAt d path settings = (d', .ok s)) :
    s.Keeps .empty := by
  rcases synced_of_isFresh hfresh hopen with ⟨hsynced, -, hempty⟩
  rcases ready_of_openAt hopen with ⟨hopened, hattempts⟩
  refine ⟨hopened, ?_, hsynced.sized, hsynced.intact, hattempts⟩
  rw [hempty]
  rfl

end VersionedStore

/-! ## Tabular stores -/

namespace TabularStore

/-- A store of this kind that keeps the values of a plain store in its file. -/
def Represents (s : Store) (d : Disk) (p : PlainStore) : Prop :=
  ∃ t, s = .tabular t ∧ t.closed = p.closed ∧ t.Holds p.values.named d

variable {s : TabularStore} {d : Disk} {p : PlainStore}

/-- The answer to a query from the rows of a table. -/
def answerFrom (rows : SortedMap String String) : Query → Except StoreError Answer
  | .value key => .ok (.value (rows.get? key.text))
  | .all => (readStored rows.toList .empty).map .values
  | .dataSize => .ok (.amount (rows.values.foldl (fun n value => n + value.utf8ByteSize) 0))
  | .keyCount => .ok (.amount rows.size)

theorem map_query {α β : Type} (s : TabularStore) (d : Disk)
    (ask : SortedMap String String → Except StoreError α) (f : α → β) :
    ((s.query d ask).1, (s.query d ask).2.map f) = s.query d (fun rows => (ask rows).map f) := by
  unfold query
  rcases s.connectOpen d with ⟨d', e | c⟩
  · rfl
  · have hrows : ((rows c.image).bind ask).map f =
        (rows c.image).bind (fun rows => (ask rows).map f) := by
      cases rows c.image with
      | error e => rfl
      | ok table => rfl
    exact congrArg (Prod.mk d') hrows

/-- All queries are answered from the rows. -/
theorem ask_eq_query (s : TabularStore) (d : Disk) (q : Query) :
    (Store.tabular s).ask d q = s.query d (fun rows => answerFrom rows q) := by
  cases q with
  | value key => exact map_query s d _ _
  | all => exact map_query s d _ _
  | dataSize => exact map_query s d _ _
  | keyCount => exact map_query s d _ _

/-- From rows that are named by keys, queries are answered as a plain store answers them. -/
theorem answerFrom_named (p : PlainStore) (q : Query) :
    answerFrom p.values.named q = .ok (p.ask q) := by
  cases q with
  | value key => simp only [answerFrom, SortedMap.get?_named, PlainStore.ask]
  | all =>
      simp only [answerFrom, readStored_named, PlainStore.ask]
      rfl
  | dataSize =>
      have hsum : p.values.named.values.foldl (fun n value => n + value.utf8ByteSize) 0 =
          p.values.total String.utf8ByteSize := by
        calc
          p.values.named.values.foldl (fun n value => n + value.utf8ByteSize) 0 =
              (p.values.named.values.map String.utf8ByteSize).sum := by
            rw [List.sum_eq_foldl, List.foldl_map]
          _ = p.values.total String.utf8ByteSize := SortedMap.total_named _ _
      simp only [answerFrom, hsum, PlainStore.ask]
  | keyCount => simp only [answerFrom, SortedMap.size_named, PlainStore.ask]

theorem ask_of_holds (hopen : s.closed = false) (h : s.Holds p.values.named d) (q : Query) :
    (Store.tabular s).ask d q = (d, .ok (p.ask q)) := by
  rw [ask_eq_query, query_of_holds h hopen, answerFrom_named]

theorem ask_of_closed (hclosed : s.closed = true) (q : Query) :
    (Store.tabular s).ask d q = (d, .error .closed) := by
  rw [ask_eq_query, query_of_closed hclosed]

theorem agreeing_query (hclosed : s.closed = p.closed) (h : s.Holds p.values.named d) (q : Query) :
    Agreeing Represents ((Store.tabular s).carryOut d (.query q))
      (p.carryOut (fun _ => true) (.query q)) := by
  simp only [Store.carryOut, PlainStore.carryOut, ← hclosed]
  cases hopen : s.closed with
  | true =>
      rw [ask_of_closed hopen]
      exact ⟨⟨s, rfl, hclosed, h⟩, rfl⟩
  | false =>
      rw [ask_of_holds hopen h]
      exact ⟨⟨s, rfl, hclosed, h⟩, rfl⟩

theorem agreeing_perform (hclosed : s.closed = p.closed) (h : s.Holds p.values.named d)
    (b : Batch) :
    Agreeing Represents ((Store.tabular s).carryOut d (.perform b))
      (p.carryOut (fun _ => true) (.perform b)) := by
  simp only [Store.carryOut, Store.perform]
  cases hopen : s.closed with
  | true =>
      rw [perform_of_closed hopen, PlainStore.perform_of_closed (hclosed.symm.trans hopen)]
      exact ⟨⟨s, rfl, hclosed, h⟩, rfl⟩
  | false =>
      rcases perform_of_holds h hopen b with ⟨d', hperform, hholds⟩
      rw [Batch.writeTo_named] at hholds
      rw [hperform, Batch.readFrom_named,
        PlainStore.perform_of_accepted (hclosed.symm.trans hopen) rfl]
      exact ⟨⟨s, rfl, hclosed, hholds⟩, rfl⟩

theorem simulates : Simulates (fun _ => true) Represents := by
  constructor
  · rintro _ d p ⟨s, rfl, hclosed, -⟩
    exact hclosed
  · rintro _ d p ⟨s, rfl, hclosed, h⟩ c
    cases c with
    | query q => exact agreeing_query hclosed h q
    | perform b => exact agreeing_perform hclosed h b
    | close =>
        simp only [Store.carryOut, Store.close, close_of_holds h]
        exact ⟨⟨_, rfl, rfl, h⟩, rfl⟩

end TabularStore

/-! ## New stores -/

namespace Store

open VersionedStore (firstKey secondKey)

variable {d d' d₁ d₂ : Disk} {path path' : String} {settings settings' : StorageSettings}
  {s t : Store}

theorem represents_of_isFresh (hfresh : d.IsFresh path)
    (hopen : openAt d .versioned path settings = (d₁, .ok s)) :
    VersionedStore.Represents s d₁ .empty := by
  rcases versioned_of_openAt hopen with ⟨v, rfl, hresult⟩
  exact ⟨v, rfl, VersionedStore.keeps_of_isFresh hfresh hresult⟩

theorem represents_of_isNew (hsound : d.IsSound)
    (hopen : openAt d .tabular path settings = (d₁, .ok t)) (hnew : Table.IsNew d d₁ path) :
    TabularStore.Represents t d₁ .empty := by
  rcases tabular_of_openAt hopen with ⟨v, rfl, hresult⟩
  exact ⟨v, rfl, TabularStore.holds_of_openAt hsound hresult hnew⟩

/-- Whatever is requested of a new store, it answers as a plain store does that has no values yet.
A batch whose commit does not fit a frame is refused by a versioned store and leaves the store and
the disk as they are; requests that all fit are answered alike by both kinds. -/
theorem answers_of_new (hfresh : d.IsFresh path)
    (hopen : openAt d .versioned path settings = (d₁, .ok s)) (hsound : d'.IsSound)
    (hopen' : openAt d' .tabular path' settings' = (d₂, .ok t)) (hnew : Table.IsNew d' d₂ path') :
    (∀ requests, s.replies d₁ requests = PlainStore.empty.replies Batch.fits requests) ∧
      (∀ requests, t.replies d₂ requests = PlainStore.empty.replies (fun _ => true) requests) ∧
      (∀ requests, (∀ r ∈ requests, StoreRequest.fits r = true) →
        s.replies d₁ requests = PlainStore.empty.replies (fun _ => true) requests ∧
          s.replies d₁ requests = t.replies d₂ requests) ∧
      ∀ requests b, (s.after d₁ requests).1.isClosed = false → b.fits = false →
        ∃ seq, (s.after d₁ requests).1.perform (s.after d₁ requests).2 b =
          ((s.after d₁ requests).1, (s.after d₁ requests).2,
            .error (.storage (.largeCommit seq))) := by
  have hversioned := represents_of_isFresh hfresh hopen
  have htabular := represents_of_isNew hsound hopen' hnew
  have hlogged := VersionedStore.simulates.replies_eq hversioned
  have hstored := TabularStore.simulates.replies_eq htabular
  refine ⟨hlogged, hstored, ?_, ?_⟩
  · intro requests hfits
    have hplain := (hlogged requests).trans (PlainStore.replies_of_fits _ hfits)
    exact ⟨hplain, hplain.trans (hstored requests).symm⟩
  · intro requests b hopened hlarge
    rcases VersionedStore.simulates.exists_after hversioned requests with ⟨p, v, hv, hkeeps⟩
    rw [hv] at hopened ⊢
    refine ⟨v.committed.seq + 1, ?_⟩
    have hperform := hkeeps.perform_large (d := (s.after d₁ requests).2) hopened hlarge
    simp only [perform, hperform]

/-- A batch with a key to read, two to update, and one of these to delete, and what is asked
then. -/
def firstRequests : List StoreRequest :=
  [.call (.perform ⟨.singleton firstKey (), .ofList [(firstKey, "v"), (secondKey, "w")],
      .singleton secondKey ()⟩),
    .call (.query (.value firstKey)), .call (.query .dataSize), .call .close,
    .call (.query .keyCount), .isClosed]

/-- Two new stores on empty disks answer these requests alike. -/
theorem answers_of_new_first :
    ∃ d₁ d₂ s t, openAt .empty .versioned "store" .standard = (d₁, .ok s) ∧
      openAt .empty .tabular "table" .standard = (d₂, .ok t) ∧
      (∀ r ∈ firstRequests, r.fits = true) ∧
      s.replies d₁ firstRequests = t.replies d₂ firstRequests ∧
      t.replies d₂ firstRequests =
        [.answer (.ok (.values .empty)), .answer (.ok (.value (some "v"))),
          .answer (.ok (.amount 1)), .answer (.ok .done), .answer (.error .closed),
          .flag true] := by
  have hlogged : ∃ d s, openAt .empty .versioned "store" .standard = (d, .ok s) := ⟨_, _, rfl⟩
  have hstored : ∃ d s, openAt .empty .tabular "table" .standard = (d, .ok s) ∧
      Table.IsNew .empty d "table" := ⟨_, _, rfl, _, _, rfl, rfl, rfl, rfl⟩
  have hfits : ∀ r ∈ firstRequests, r.fits = true := by decide
  rcases hlogged with ⟨d₁, s, hopen⟩
  rcases hstored with ⟨d₂, t, hopen', hnew⟩
  rcases answers_of_new VersionedStore.isFresh_empty hopen Disk.isSound_empty hopen' hnew with
    ⟨-, hanswers, halike, -⟩
  exact ⟨d₁, d₂, s, t, hopen, hopen', hfits, (halike firstRequests hfits).2,
    (hanswers firstRequests).trans rfl⟩

end Store
end GuardedStore
