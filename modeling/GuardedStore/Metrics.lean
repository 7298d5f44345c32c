/-!
# Metrics

Counts of what has happened to requests.  All counters have 64 bits and start over after the
largest number.
-/

namespace GuardedStore

structure Metrics where
  keysRead : UInt64
  keysUpdated : UInt64
  keysDeleted : UInt64
  -- transactions that the store has carried out
  transactions : UInt64
  -- requests that did not get as far as the store
  rejections : UInt64
  -- transactions that have failed in the store
  storageErrors : UInt64
  -- requests of users that could not be authenticated
  authenticationFailures : UInt64
  -- the time that transactions took, in microseconds
  micros : UInt64
  deriving Repr, DecidableEq

namespace Metrics

def none : Metrics := ⟨0, 0, 0, 0, 0, 0, 0, 0⟩

instance : Inhabited Metrics := ⟨none⟩

/-- Counts a transaction with the numbers of its keys and the time it took in nanoseconds. -/
def transaction (m : Metrics) (reads updates deletes : Nat) (nanos : Nat) : Metrics :=
  { m with
    keysRead := m.keysRead + UInt64.ofNat reads
    keysUpdated := m.keysUpdated + UInt64.ofNat updates
    keysDeleted := m.keysDeleted + UInt64.ofNat deletes
    transactions := m.transactions + 1
    micros := m.micros + UInt64.ofNat (nanos / 1000) }

def rejection (m : Metrics) : Metrics := { m with rejections := m.rejections + 1 }

def storageError (m : Metrics) : Metrics := { m with storageErrors := m.storageErrors + 1 }

def authenticationFailure (m : Metrics) : Metrics :=
  { m with authenticationFailures := m.authenticationFailures + 1 }

/-- The time that a transaction takes on average, in whole microseconds. -/
def average (m : Metrics) : UInt64 := m.micros / m.transactions

end Metrics

end GuardedStore
