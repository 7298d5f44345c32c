import GuardedStore.Decimal.Shortest
import GuardedStore.Key.Basic
import GuardedStore.Text.Hex
import GuardedStore.Text.Natural

/-!
# Faults

What can be wrong with a credential, a policy, a configuration, a wire message or a store, as the
cause together with what it was found in.  `message` puts each fault in words, and a fault that
somebody else has put in words is `described`.
-/

namespace GuardedStore

/-! ## Credentials -/

/-- Why no credential can be made. -/
inductive CredentialFault where
  -- the name of an algorithm does not have three parts
  | unparseableAlgorithm (text : String)
  -- the algorithm is none that is known
  | unsupportedAlgorithm (name : String)
  -- the iteration count is not a number
  | badIterations (text : String) (fault : Text.NaturalFault)
  | badKeyLength (text : String) (fault : Text.NaturalFault)
  | noIterations
  -- the key is not a positive number of whole bytes
  | unevenKeyLength (bits : UInt32)
  -- the salt is not written in hexadecimal
  | saltNotHex (fault : Text.Hex.Fault)
  -- the hash is not written in hexadecimal
  | hashNotHex (fault : Text.Hex.Fault)
  | described (text : String)
  deriving Repr, DecidableEq

def CredentialFault.message : CredentialFault → String
  | .unparseableAlgorithm text => s!"unparseable password algorithm '{text}'"
  | .unsupportedAlgorithm name => s!"unsupported password algorithm '{name}'"
  | .badIterations text fault => s!"bad iteration count '{text}': {fault.message}"
  | .badKeyLength text fault => s!"bad key length '{text}': {fault.message}"
  | .noIterations => "iteration count must be positive"
  | .unevenKeyLength bits =>
    s!"key length {Decimal.text bits.toNat} must be a positive multiple of 8"
  | .saltNotHex fault => s!"salt is not hex: {fault.message}"
  | .hashNotHex fault => s!"hash is not hex: {fault.message}"
  | .described text => text

/-! ## Policies and configurations -/

inductive MembershipFault where
  | repeatedRole (name : String)
  | unknownRole (name : String)
  | takenName (name : String)
  deriving Repr, DecidableEq

def MembershipFault.message : MembershipFault → String
  | .repeatedRole name => s!"duplicate user role '{name}'"
  | .unknownRole name => s!"nonexistent role '{name}'"
  | .takenName name => s!"duplicate user '{name}'"

/-- Why a configuration cannot be used at all. -/
inductive ConfigFault where
  -- the text has not the form of a configuration
  | unparseable
  | unreadable (path : String)
  -- the probability of injected faults is out of range
  | badProbability (p : Float)
  -- no store of the wanted kind exists
  | unknownKind (text : String)
  -- A role with this name is already declared
  | takenRole (name : String)
  | described (text : String)
  deriving Repr

def ConfigFault.message : ConfigFault → String
  | .unparseable => "unparseable configuration: not a configuration"
  | .unreadable path => s!"cannot read {path}: no such file"
  | .badProbability p => s!"databaseCrashProbability {Decimal.floatText p} must be in [0, 1)"
  | .unknownKind text => s!"no database implementation available with kind '{text}'"
  | .takenRole name => s!"duplicate role '{name}'"
  | .described text => text

/-- One of the things that are wrong with the roles and users of a configuration. -/
inductive ConfigProblem where
  -- A grant of a role has no valid pattern
  | badGrant (role keys : String) (fault : Key.Fault)
  | takenRole (name : String)
  | badCredential (user : String) (fault : CredentialFault)
  | badMember (user : String) (fault : MembershipFault)
  -- A user cannot join a policy, apart from any configuration
  | membership (fault : MembershipFault)
  | described (text : String)
  deriving Repr, DecidableEq

def ConfigProblem.message : ConfigProblem → String
  | .badGrant role keys fault => s!"role '{role}': invalid key '{keys}': {fault.reason}"
  | .takenRole name => s!"duplicate role '{name}'"
  | .badCredential user fault => s!"user '{user}': password error: {fault.message}"
  | .badMember user fault => s!"user '{user}': {fault.message}"
  | .membership fault => fault.message
  | .described text => text

/-! ## Wire messages -/

inductive MessageFault where
  | notJson
  -- the value has the shape of no message
  | noShape
  | described (text : String)
  deriving Repr, DecidableEq

def MessageFault.message : MessageFault → String
  | .notJson => "not a JSON text"
  | .noShape => "data did not match any variant of untagged enum Message"
  | .described text => text

/-! ## Stores -/

/-- Why the bytes of a commit log are refused. -/
inductive LogDamage where
  | shortHeader
  -- A commit does not come after the one before it
  | unorderedCommit
  -- A frame does not have the announced length or checksum
  | badFrame
  deriving Repr, DecidableEq

def LogDamage.message : LogDamage → String
  | .shortHeader => "file is too short to hold a header"
  | .unorderedCommit => "commit sequence is not increasing"
  | .badFrame => "checksum or length mismatch"

/-- Why two transactions cannot both be committed. -/
inductive Conflict where
  -- A written key was written by another transaction meanwhile
  | changedKey (key : String)
  | described (text : String)
  deriving Repr, DecidableEq

def Conflict.message : Conflict → String
  | .changedKey key => s!"key '{key}' was changed by a concurrent transaction"
  | .described text => text

/-- A number of 32 bits in hexadecimal, a negative one as its two's complement. -/
def identifierText (n : Int32) : String :=
  "0x" ++ String.ofList (Nat.toDigits 16 n.toUInt32.toNat)

/-- Why a store refuses to open or to work. -/
inductive StorageFault where
  -- the file does not start like a commit log
  | notALog (path : String)
  | laterFormat (path : String) (version : Nat)
  | corruptLog (path : String) (damage : LogDamage)
  -- A commit could not be added to the log before
  | brokenLog (path : String)
  | largeCommit (seq : UInt64)
  | largeSnapshot
  -- each of some attempts has met a conflict, the last one this
  | abandoned (attempts : Nat) (last : Conflict)
  -- the store has an entry whose name is no key
  | invalidKey (name : String) (fault : Key.Fault)
  -- the database belongs to another product
  | foreignDatabase (path : String) (id : Int32)
  -- the database has a schema of a later version
  | laterSchema (path : String) (version : Nat)
  -- the database records a version that cannot be
  | impossibleSchema (path : String) (version : Int)
  | described (text : String)
  deriving Repr, DecidableEq

def newestLogFormat : Nat := 1

def newestSchema : Nat := 1

def StorageFault.message : StorageFault → String
  | .notALog path => s!"{path} is not a leafkv commit log"
  | .laterFormat path version =>
    s!"{path} has commit log format {Decimal.text version}, newer than supported " ++
      Decimal.text newestLogFormat
  | .corruptLog path damage => s!"corrupt commit log {path}: {damage.message}"
  | .brokenLog path => s!"commit log {path} failed an earlier write"
  | .largeCommit seq => s!"commit {Decimal.text seq.toNat} exceeds frame size limit"
  | .largeSnapshot => "snapshot exceeds frame size limit"
  | .abandoned attempts last =>
    s!"transaction abandoned after {Decimal.text attempts} attempts: " ++
      s!"storage conflict: {last.message}"
  | .invalidKey name fault => s!"store holds an invalid key: invalid key '{name}': {fault.reason}"
  | .foreignDatabase path id => s!"{path} belongs to another application (id {identifierText id})"
  | .laterSchema path version =>
    s!"{path} has schema version {Decimal.text version}, newer than supported " ++
      Decimal.text newestSchema
  | .impossibleSchema path version => s!"{path} records schema version {Decimal.signedText version}"
  | .described text => text

end GuardedStore
