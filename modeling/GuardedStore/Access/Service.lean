import GuardedStore.Access.Gate
import GuardedStore.Config.Policy

/-!
# Services

A service is what a configuration describes: a policy and a store behind a gate.  Users say who they
are with each call, and every call has a response.
-/

namespace GuardedStore

inductive Call where
  | message (bytes : List UInt8)
  | read (raw : String)
  | update (raw value : String)
  | delete (raw : String)
  deriving Repr

structure Service where
  config : Config
  policy : Policy
  gate : Gate

namespace Service

/-- Starts the service that a configuration describes.  Its policy is made before the store is
touched. -/
def start (d : Disk) (config : Config) : Disk × Except StoreError Service :=
  match config.policy with
  | .error e => (d, .error e)
  | .ok policy => match config.kind with
    | .error e => (d, .error e)
    | .ok kind => match Store.openAt d kind config.databaseFile config.storage with
      | (d, .error e) => (d, .error e)
      | (d, .ok store) => (d, .ok ⟨config, policy, ⟨store, config.faults, .none⟩⟩)

def readConfig (d : Disk) (path : String) : Except StoreError Config :=
  match d.find? path with
  | none => .error (.config (.unreadable path))
  | some file => Config.parse (Bytes.toList (d.bytes file))

/-- Starts the service that the configuration in a file describes. -/
def startFile (d : Disk) (path : String) : Disk × Except StoreError Service :=
  match readConfig d path with
  | .error e => (d, .error e)
  | .ok config => start d config

/-- The user with a name and a password; failures are counted. -/
def authenticate (s : Service) (name password : String) : Service × Except StoreError User :=
  match s.policy.authenticate name password with
  | .ok user => (s, .ok user)
  | .error e =>
    ({ s with gate := { s.gate with metrics := s.gate.metrics.authenticationFailure } }, .error e)

def serve (g : Gate) (d : Disk) (chance : Chance) (user : User) :
    Call → Gate × Disk × Except StoreError Wire.Response
  | .message bytes => g.message d chance user bytes
  | .read raw => g.read d chance user raw
  | .update raw value => g.update d chance user raw value
  | .delete raw => g.delete d chance user raw

/-- Answers a call.  Every failure becomes a response with the status of its error. -/
def handle (s : Service) (d : Disk) (chance : Chance) (name password : String) (call : Call) :
    Service × Disk × Wire.Response :=
  match s.authenticate name password with
  | (s, .error e) => (s, d, .error e)
  | (s, .ok user) => match serve s.gate d chance user call with
    | (gate, d, .ok response) => ({ s with gate }, d, response)
    | (gate, d, .error e) => ({ s with gate }, d, .error e)

def close (s : Service) (d : Disk) : Service × Disk × Except StoreError Unit :=
  let (store, d, r) := s.gate.store.close d
  ({ s with gate := { s.gate with store } }, d, r)

end Service

end GuardedStore
