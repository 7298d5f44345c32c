import GuardedStore.Wire.Message

/-!
# Responses

What is answered to a request: a status and a body, which is a message, a plain text or nothing.
-/

namespace GuardedStore.Wire

/-- What a response says apart from its status. -/
inductive Body where
  | message (m : Message)
  | text (t : String)
  | empty
  deriving Repr

structure Response where
  status : Nat
  body : Body
  deriving Repr

namespace Response

def values (values : SortedMap String String) : Response := ⟨200, .message (.result ⟨values⟩)⟩

def text (value : String) : Response := ⟨200, .text value⟩

/-- The answer to a request that has succeeded with nothing to tell. -/
def empty : Response := ⟨200, .empty⟩

def error (e : StoreError) : Response := ⟨e.status, .message (.error (.ofError e))⟩

/-- The answer to a request that was rejected for all of some errors. -/
def rejection (errors : List StoreError) : Response :=
  ⟨400, .message (.errors ⟨errors.map ErrorReport.ofError⟩)⟩

def isSuccess (r : Response) : Bool := 200 ≤ r.status && r.status < 300

end Response

def Body.encode : Body → List UInt8
  | message m => m.encode
  | text t => Json.textBytes t
  | empty => []

end GuardedStore.Wire
