import GuardedStore.Access.Service

/-!
# Command line

The commands of the program, as functions of a disk and some arguments.  A command that fails says
why on the error output and ends with code 1.
-/

namespace GuardedStore.CommandLine

/-- What a run of the program leaves behind apart from the disk. -/
structure Outcome where
  code : Nat
  out : String
  err : String
  deriving Repr, DecidableEq

/-- What a command prints, or why it fails. -/
abbrev Result := Except String String

/-- The argument after the first one that is the name of a flag. -/
def flag? (name : String) : List String → Option String
  | [] => none
  | arg :: rest => if arg = name then rest.head? else flag? name rest

def flag (name : String) (args : List String) : Except String String :=
  match flag? name args with
  | some value => .ok value
  | none => .error (name ++ " is required")

def kindFlag (name : String) (args : List String) : Except String StoreKind :=
  match flag? name args with
  | some raw => (StoreKind.parse raw).mapError StoreError.message
  | none => .ok StoreKind.standard

/-- An error with the stage at which it came up. -/
def atStage (stage : String) (e : StoreError) : String := stage ++ ": " ++ e.message

def checkConfig (d : Disk) (args : List String) : Result := do
  let file ← flag "--file" args
  let config ← (Service.readConfig d file).mapError StoreError.message
  let policy ← config.policy.mapError StoreError.message
  let kind ← config.kind.mapError StoreError.message
  return s!"ok\t{config.databaseFile}\t{kind.text}\t" ++
    s!"{Decimal.text policy.roles.size} roles\t{Decimal.text policy.users.size} users\n"

def migrateStores (d : Disk) (sourceKind targetKind : StoreKind) (source target : String) :
    Disk × Result :=
  match Store.openAt d sourceKind source .standard with
  | (d, .error e) => (d, .error (atStage "open source" e))
  | (d, .ok source) => match Store.openAt d targetKind target .standard with
    | (d, .error e) => (d, .error (atStage "open target" e))
    | (d, .ok target) => match source.copy target d with
      | (_, d, .error e) => (d, .error (atStage "migrate" e))
      | (target, d, .ok copied) => match source.close d with
        | (_, d, .error e) => (d, .error (atStage "close source" e))
        | (_, d, .ok ()) => match target.close d with
          | (_, d, .error e) => (d, .error (atStage "close target" e))
          | (_, d, .ok ()) => (d, .ok s!"ok\t{Decimal.text copied}\n")

/-- Copies one store into another, as the arguments say. -/
def migrate (d : Disk) (args : List String) : Disk × Result :=
  let wanted : Except String (String × StoreKind × String × StoreKind) := do
    let source ← flag "--source" args
    let sourceKind ← kindFlag "--source-kind" args
    let target ← flag "--target" args
    let targetKind ← kindFlag "--target-kind" args
    return (source, sourceKind, target, targetKind)
  match wanted with
  | .error message => (d, .error message)
  | .ok (source, sourceKind, target, targetKind) =>
    migrateStores d sourceKind targetKind source target

/-- The values of a store as JSON, each member on its line. -/
def listing (values : Values) : String :=
  Json.indented (Wire.textObject (values.toList.map (fun e => (e.1.text, e.2)))) ++ "\n"

def dumpStore (d : Disk) (kind : StoreKind) (file : String) : Disk × Result :=
  match Store.openAt d kind file .standard with
  | (d, .error e) => (d, .error (atStage "open" e))
  | (d, .ok store) => match store.all d with
    | (d, .error e) => (d, .error (atStage "read" e))
    | (d, .ok values) => match store.close d with
      | (_, d, .error e) => (d, .error (atStage "close" e))
      | (_, d, .ok ()) => (d, .ok (listing values))

/-- Prints all values of a store, as the arguments say. -/
def dump (d : Disk) (args : List String) : Disk × Result :=
  let wanted : Except String (String × StoreKind) := do
    let file ← flag "--file" args
    let kind ← kindFlag "--kind" args
    return (file, kind)
  match wanted with
  | .error message => (d, .error message)
  | .ok (file, kind) => dumpStore d kind file

def algorithm (args : List String) : Except String Algorithm :=
  match flag? "--iterations" args with
  | none => .ok .standard
  | some text => match Text.readUInt32 text with
    | .error fault => .error s!"invalid --iterations: {fault.message}"
    | .ok iterations =>
      (Algorithm.create iterations Algorithm.standard.keyBits).mapError
        (fun fault => (StoreError.credential fault).message)

def createPassword (salt : List UInt8) (args : List String) : Result := do
  let password ← flag "--password" args
  let algorithm ← algorithm args
  let entry := Config.CredentialEntry.ofCredential (.hashed algorithm password salt)
  return entry.toJson.indented ++ "\n"

def paths (args : List String) : List String :=
  ["--file", "--source", "--target"].filterMap (fun name => flag? name args)

def version : String := "leafkv 0.1.0\n"

def usage : String :=
  "usage:\n" ++
  "  leafkv check-config --file <config.json>\n" ++
  "  leafkv migrate --source <file> [--source-kind <kind>] --target <file> " ++
    "[--target-kind <kind>]\n" ++
  "  leafkv dump --file <file> [--kind <kind>]\n" ++
  "  leafkv create-password --password <text> [--iterations <n>]\n" ++
  "  leafkv version\n" ++
  "kinds: MVSTORE (default), SQLITE\n"

/-- The outcome of a command, after what it says in advance on the error output. -/
def outcome (advance : String) : Result → Outcome
  | .ok out => ⟨0, out, advance⟩
  | .error message => ⟨1, "", advance ++ "error: " ++ message ++ "\n"⟩

/-- Runs the program.  A new credential gets the given salt. -/
def run (d : Disk) (salt : List UInt8) : List String → Disk × Outcome
  | [] => (d, outcome usage (.error "missing command"))
  | "check-config" :: args => (d, outcome "" (checkConfig d args))
  | "migrate" :: args =>
    let (d, r) := migrate d args
    (d, outcome "" r)
  | "dump" :: args =>
    let (d, r) := dump d args
    (d, outcome "" r)
  | "create-password" :: args => (d, outcome "" (createPassword salt args))
  | "version" :: _ => (d, outcome "" (.ok version))
  | command :: _ => (d, outcome usage (.error ("unknown command: " ++ command)))

end GuardedStore.CommandLine
