import GuardedStore.Json.Numeral
import GuardedStore.Json.Record

/-!
# Settings of a store
-/

namespace GuardedStore

structure StorageSettings where
  -- how often a transaction is attempted
  maxAttempts : UInt64
  -- how long to wait for a busy database, in milliseconds
  busyTimeout : UInt64
  -- whether each commit is forced to the disk
  syncCommits : Bool
  deriving Repr, DecidableEq

def Json.ofUInt64 (n : UInt64) : Json := .number (.ofNat n.toNat)

def Json.uint64? : Json → Option UInt64
  | .number n => (n.natural? Text.largest64).map UInt64.ofNat
  | _ => none

namespace StorageSettings

def standard : StorageSettings := ⟨10, 5000, true⟩

instance : Inhabited StorageSettings := ⟨standard⟩

/-- The fields of the settings; each of them may be left out. -/
def form : Json.RecordForm :=
  ⟨["maxRudAttempts", "sqliteBusyTimeoutMs", "fsyncCommits"], true⟩

def toJson (s : StorageSettings) : Json :=
  .ofMembers [("maxRudAttempts", Json.ofUInt64 s.maxAttempts),
    ("sqliteBusyTimeoutMs", Json.ofUInt64 s.busyTimeout), ("fsyncCommits", .bool s.syncCommits)]

def ofJson? (v : Json) : Option StorageSettings :=
  match form.read? v with
  | some [maxAttempts, busyTimeout, syncCommits] => do
    let maxAttempts ← Json.withDefault standard.maxAttempts Json.uint64? maxAttempts
    let busyTimeout ← Json.withDefault standard.busyTimeout Json.uint64? busyTimeout
    let syncCommits ← Json.withDefault standard.syncCommits Json.bool? syncCommits
    return ⟨maxAttempts, busyTimeout, syncCommits⟩
  | _ => none

end StorageSettings

end GuardedStore
