import GuardedStore.Json.Numeral

/-!
# Limits of JSON values

A value that is kept as a whole, before it is known what it is for, must be one that can be held:
its strings are texts, its numbers are within double precision, and its brackets are nested no
deeper than a fixed depth.
-/

namespace GuardedStore.Json

mutual

/-- How deep brackets are nested. -/
def depth : Json → Nat
  | array items => depthOfItems items + 1
  | object members => depthOfMembers members + 1
  | _ => 0

def depthOfItems : List Json → Nat
  | [] => 0
  | v :: rest => max (depth v) (depthOfItems rest)

def depthOfMembers : List (List UInt8 × Json) → Nat
  | [] => 0
  | (_, v) :: rest => max (depth v) (depthOfMembers rest)

end

mutual

def isInRange : Json → Bool
  | number n => n.toFloat?.isSome
  | string bytes => (bytesText? bytes).isSome
  | array items => areInRange items
  | object members => membersAreInRange members
  | _ => true

def areInRange : List Json → Bool
  | [] => true
  | v :: rest => isInRange v && areInRange rest

def membersAreInRange : List (List UInt8 × Json) → Bool
  | [] => true
  | (name, v) :: rest => (bytesText? name).isSome && isInRange v && membersAreInRange rest

end

def greatestDepth : Nat := 127

/-- Whether a value can be kept. -/
def isHoldable (v : Json) : Bool := depth v ≤ greatestDepth && isInRange v

end GuardedStore.Json
