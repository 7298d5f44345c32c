import GuardedStore.Access.Admission
import GuardedStore.Config.FaultInjection
import GuardedStore.Metrics
import GuardedStore.Store.Basic
import GuardedStore.Wire.Response

/-!
# The gate in front of a store

Requests of users who are known pass a gate: a request that is not admitted is rejected, and one
that is becomes a transaction of the store.  Each request is counted once, as a transaction, as a
rejection or as an error of the store.

What a call depends on and does not decide, the lot that it draws and the time that it takes, comes
from outside.
-/

namespace GuardedStore

/-- What a call meets by chance. -/
structure Chance where
  -- the lot that decides on an injected fault, from zero up to but not including one
  lot : Float
  -- the time that the store takes, in nanoseconds
  nanos : Nat

/-- A store with what guards and counts its use. -/
structure Gate where
  store : Store
  faults : FaultInjection
  metrics : Metrics

namespace Gate

def reject (g : Gate) (response : Wire.Response) : Gate × Wire.Response :=
  ({ g with metrics := g.metrics.rejection }, response)

def fail (g : Gate) : Gate := { g with metrics := g.metrics.storageError }

/-- Carries out a batch, unless a fault is injected. -/
def perform (g : Gate) (d : Disk) (chance : Chance) (batch : Batch) :
    Gate × Disk × Except StoreError Values :=
  if g.faults.strikes chance.lot then (g.fail, d, .error .injectedFault)
  else match g.store.perform d batch with
    | (store, d, .error e) => ({ g with store }.fail, d, .error e)
    | (store, d, .ok values) =>
      ({ g with
          store
          metrics := g.metrics.transaction batch.read.size batch.update.size batch.delete.size
            chance.nanos }, d, .ok values)

/-- Reads a key, unless a fault is injected. -/
def look (g : Gate) (d : Disk) (chance : Chance) (key : Key) :
    Gate × Disk × Except StoreError (Option String) :=
  if g.faults.strikes chance.lot then (g.fail, d, .error .injectedFault)
  else match g.store.get d key with
    | (d, .error e) => (g.fail, d, .error e)
    | (d, .ok value) =>
      ({ g with metrics := g.metrics.transaction 1 0 0 chance.nanos }, d, .ok value)

def resultOf (values : Values) : SortedMap String String :=
  .ofList (values.toList.map (fun e => (e.1.text, e.2)))

/-- Carries out a request.  Whatever speaks against it is answered; errors of the store are left to
whoever called. -/
def request (g : Gate) (d : Disk) (chance : Chance) (user : User) (r : Wire.Request) :
    Gate × Disk × Except StoreError Wire.Response :=
  match user.batchOf r with
  | .error errors =>
    let (g, response) := g.reject (.rejection errors)
    (g, d, .ok response)
  | .ok batch =>
    let (g, d, values) := g.perform d chance batch
    (g, d, values.map (fun values => .values (resultOf values)))

def message (g : Gate) (d : Disk) (chance : Chance) (user : User) (bytes : List UInt8) :
    Gate × Disk × Except StoreError Wire.Response :=
  match Wire.Message.parse bytes with
  | .ok (.request r) => g.request d chance user r
  | .ok _ =>
    let (g, response) := g.reject (.rejection [.unexpectedMessage "RUD"])
    (g, d, .ok response)
  | .error e =>
    let (g, response) := g.reject (.rejection [e])
    (g, d, .ok response)

/-- Reads a single key; one without a value is not found. -/
def read (g : Gate) (d : Disk) (chance : Chance) (user : User) (raw : String) :
    Gate × Disk × Except StoreError Wire.Response :=
  match user.authorize .read raw with
  | .error e =>
    let (g, response) := g.reject (.error e)
    (g, d, .ok response)
  | .ok key =>
    let (g, d, value) := g.look d chance key
    (g, d, value.map (fun
      | some value => .text value
      | none => .error (.notFound key.text)))

/-- Updates a single key, for which the user must be allowed to write it. -/
def update (g : Gate) (d : Disk) (chance : Chance) (user : User) (raw value : String) :
    Gate × Disk × Except StoreError Wire.Response :=
  match user.authorize .write raw with
  | .error e =>
    let (g, response) := g.reject (.error e)
    (g, d, .ok response)
  | .ok key =>
    let (g, d, done) := g.perform d chance (.updating key value)
    (g, d, done.map (fun _ => .empty))

def delete (g : Gate) (d : Disk) (chance : Chance) (user : User) (raw : String) :
    Gate × Disk × Except StoreError Wire.Response :=
  match user.authorize .write raw with
  | .error e =>
    let (g, response) := g.reject (.error e)
    (g, d, .ok response)
  | .ok key =>
    let (g, d, done) := g.perform d chance (.deleting key)
    (g, d, done.map (fun _ => .empty))

end Gate

end GuardedStore
