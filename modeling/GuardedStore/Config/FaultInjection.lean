import GuardedStore.Error.Basic
import GuardedStore.Json.Numeral
import GuardedStore.Json.Record

/-!
# Injected faults

For tests, a store can be made to fail with a probability.  Each call draws a lot between zero and
one, and a lot below the probability is a fault.
-/

namespace GuardedStore

structure FaultInjection where
  -- the probability of a fault, from zero up to but not including one
  probability : Float
  deriving Repr

namespace FaultInjection

def disabled : FaultInjection := ⟨0⟩

instance : Inhabited FaultInjection := ⟨disabled⟩

def isValid (f : FaultInjection) : Bool := 0 ≤ f.probability && f.probability < 1

def create (probability : Float) : Except StoreError FaultInjection :=
  let f : FaultInjection := ⟨probability⟩
  if f.isValid then .ok f else .error (.config (.badProbability probability))

def isEnabled (f : FaultInjection) : Bool := 0 < f.probability

def strikes (f : FaultInjection) (lot : Float) : Bool := f.isEnabled && lot < f.probability

def form : Json.RecordForm := ⟨["databaseCrashProbability"], false⟩

def toJson (f : FaultInjection) : Json :=
  .ofMembers [("databaseCrashProbability", .number (.ofFloat f.probability))]

def float? : Json → Option Float
  | .number n => n.toFloat?
  | _ => none

/-- The injection that a value writes, with any probability. -/
def ofJson? (v : Json) : Option FaultInjection :=
  match form.read? v with
  | some [probability] => do
    let probability ← Json.required float? probability
    return ⟨probability⟩
  | _ => none

end FaultInjection

end GuardedStore
