import GuardedStore.Error.Fault
import GuardedStore.Key.Pattern

/-!
# Errors

Whatever goes wrong is a `StoreError`.  Three things are told of it to whoever sent a request: a
`code` that never changes, the `status` that goes with the code, and a `message` for people.  Only
a conflict between transactions is worth another attempt.
-/

namespace GuardedStore

/-- What kind of error a request has met, as it is told on the wire. -/
inductive ErrorCode where
  | badKeyName
  | operationNotPermitted
  | badMessage
  | unexpectedMessage
  | notFound
  | authenticationFailed
  | invalidConfig
  | unexpectedException
  deriving Repr, DecidableEq

def ErrorCode.text : ErrorCode → String
  | .badKeyName => "bad-key-name"
  | .operationNotPermitted => "operation-not-permitted"
  | .badMessage => "bad-message"
  | .unexpectedMessage => "unexpected-message"
  | .notFound => "not-found"
  | .authenticationFailed => "authentication-failed"
  | .invalidConfig => "invalid-config"
  | .unexpectedException => "unexpected-exception"

def ErrorCode.status : ErrorCode → Nat
  | .badKeyName | .operationNotPermitted | .badMessage | .unexpectedMessage => 400
  | .authenticationFailed => 401
  | .notFound => 404
  | .invalidConfig | .unexpectedException => 500

/-- What has gone wrong. -/
inductive StoreError where
  | io (text : String)
  | database (text : String)
  -- A text does not spell a key or a pattern
  | invalidKey (value : String) (fault : Key.Fault)
  -- the user has no grant for an action on a key
  | permissionDenied (action key : String)
  | badMessage (fault : MessageFault)
  -- A wire message is not the one that is wanted
  | unexpectedMessage (expected : String)
  | notFound (key : String)
  | storageConflict (conflict : Conflict)
  -- A store refuses to open or to work
  | storage (fault : StorageFault)
  | encoding (text : String)
  | decoding (text : String)
  | closed
  | injectedFault
  -- A configuration cannot be used at all
  | config (fault : ConfigFault)
  -- the roles and users of a configuration have problems
  | configValidation (problems : List ConfigProblem)
  -- the user is unknown or the password is wrong
  | authenticationFailed (user : String)
  | credential (fault : CredentialFault)
  deriving Repr

namespace StoreError

def message : StoreError → String
  | io text => s!"io error: {text}"
  | database text => s!"sqlite error: {text}"
  | invalidKey value fault => s!"invalid key '{value}': {fault.reason}"
  | permissionDenied action key => s!"operation {action} not permitted on key '{key}'"
  | badMessage fault => s!"unparseable message: {fault.message}"
  | unexpectedMessage expected => s!"unexpected message: expected a {expected} message"
  | notFound key => s!"key '{key}' not found"
  | storageConflict conflict => s!"storage conflict: {conflict.message}"
  | storage fault => s!"storage error: {fault.message}"
  | encoding text => s!"encode error: {text}"
  | decoding text => s!"decode error: {text}"
  | closed => "database is closed"
  | injectedFault => "injected database fault"
  | config fault => s!"invalid config: {fault.message}"
  | configValidation problems =>
    "invalid config: " ++ "; ".intercalate (problems.map ConfigProblem.message)
  | authenticationFailed user => s!"authentication failed for user '{user}'"
  | credential fault => s!"password error: {fault.message}"

/-- The code of an error.  A fault that was injected looks like any other fault of the store. -/
def code : StoreError → ErrorCode
  | invalidKey .. => .badKeyName
  | permissionDenied .. => .operationNotPermitted
  | badMessage _ => .badMessage
  | unexpectedMessage _ => .unexpectedMessage
  | notFound _ => .notFound
  | authenticationFailed _ => .authenticationFailed
  | config _ | configValidation _ => .invalidConfig
  | io _ | database _ | storageConflict _ | storage _ | encoding _ | decoding _ | closed
  | injectedFault | credential _ => .unexpectedException

def status (e : StoreError) : Nat := e.code.status

def isRetriable : StoreError → Bool
  | storageConflict _ => true
  | _ => false

end StoreError

/-- The key that a text spells; the error keeps the text. -/
def Key.parse (raw : String) : Except StoreError Key :=
  (Key.create raw).mapError (.invalidKey raw)

/-- The pattern that a text spells; the error keeps the text. -/
def Key.Pattern.parse (raw : String) : Except StoreError Key.Pattern :=
  (Pattern.create raw).mapError (.invalidKey raw)

end GuardedStore
