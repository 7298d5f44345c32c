import GuardedStore.Bytes
import GuardedStore.Text.Blank
import GuardedStore.Text.Hex

/-!
# Addresses of databases

A database is found by a path, or by an address that starts with `file:`.  After that an address has
a path and, behind a question mark, options with `&` between them, each a name and a value with `=`
between them.  A hash ends the address.  In each of these parts a percent sign with two hexadecimal
digits stands for a byte.

`Address.ofText?` reads both forms.  Options that are not known are ignored.
-/

namespace GuardedStore.Table

/-- What a connection may do to the file of a database. -/
inductive Access where
  | readOnly
  | readWrite
  -- reading, writing, and making the file
  | create
  | memory
  deriving Repr, DecidableEq

namespace Access

def ofText? : String → Option Access
  | "ro" => some readOnly
  | "rw" => some readWrite
  | "rwc" => some create
  | "memory" => some memory
  | _ => none

/-- Whether one access may be exchanged for another, which must not be more. -/
def permits : Access → Access → Bool
  | memory, _ | create, _ | _, memory | _, readOnly | readWrite, readWrite => true
  | readWrite, create | readOnly, readWrite | readOnly, create => false

end Access

/-- The systems through which files are reached. -/
inductive FileSystem where
  -- with locks and with memory that connections share, so that a log can be kept
  | shared
  -- with other locks or none, and without a log
  | plain
  | memory
  deriving Repr, DecidableEq

namespace FileSystem

def ofText? : String → Option FileSystem
  | "unix" | "unix-excl" => some shared
  | "unix-none" | "unix-dotfile" => some plain
  | "memdb" => some memory
  | _ => none

end FileSystem

/-- Where a database is and how it is to be used. -/
structure Address where
  -- the path of the file. None is meant by an empty path and by `:memory:`
  path : String
  access : Access
  system : FileSystem
  -- whether the file is taken for one that nobody changes
  frozen : Bool
  unlocked : Bool
  deriving Repr, DecidableEq

namespace Address

def isNameless (a : Address) : Bool := a.path == "" || a.path == ":memory:" || a.access = .memory

def isFleeting (a : Address) : Bool := a.isNameless || a.system = .memory

def isWritable (a : Address) : Bool := a.access != .readOnly && (a.isNameless || !a.frozen)

def canLog (a : Address) : Bool := a.system = .shared && !a.frozen && !a.unlocked

/-! ## Reading -/

def hexValue? (c : Char) : Option UInt8 :=
  if c.toNat < 128 then Text.Hex.value? (UInt8.ofNat c.toNat) else none

def escaped? (high low : Char) : Option UInt8 :=
  match hexValue? high, hexValue? low with
  | some h, some l => some (h <<< 4 ||| l)
  | _, _ => none

/-- The bytes that a part of an address spells.  The byte zero ends the part. -/
def spelled : List Char → List UInt8
  | [] => []
  | '%' :: h :: l :: rest =>
    match escaped? h l with
    | some 0 => []
    | some b => b :: spelled rest
    | none => 37 :: spelled (h :: l :: rest)
  | c :: rest => String.utf8EncodeChar c ++ spelled rest

/-- The text that a part of an address spells.  Bytes that write no text stand for the characters
with their numbers. -/
def textOf (part : List Char) : String :=
  let bytes := spelled part
  match String.fromUTF8? (Bytes.ofList bytes) with
  | some text => text
  | none => String.ofList (bytes.map (fun b => Char.ofNat b.toNat))

def readOption (part : List Char) : String × String :=
  let name := part.takeWhile (· != '=')
  (textOf name, textOf (part.drop (name.length + 1)))

/-- The options behind a question mark; those without a name are left out. -/
def readOptions (text : List Char) : List (String × String) :=
  ((text.splitOn '&').map readOption).filter (fun o => o.1 != "")

/-- What comes after the name of the machine, if there is none or if it is this one. -/
def afterMachine? : List Char → Option (List Char)
  | '/' :: '/' :: rest =>
    let machine := rest.takeWhile (· != '/')
    if machine = [] ∨ machine = "localhost".toList then some (rest.drop machine.length) else none
  | text => some text

/-- Whether a value switches an option on: a word for it, or a number other than zero. -/
def isOn (value : String) : Bool :=
  match value.toList.takeWhile Char.isDigit with
  | [] => ["on", "yes", "true"].any (Text.equalIgnoringCase value)
  | digits =>
    let n := digits.foldl (fun n c => 10 * n + (c.toNat - 48)) 0
    n < 0x80000000 && n % 256 != 0

/-- Whether an option is switched on the first time that it is given. -/
def isSwitchedOn (name : String) (options : List (String × String)) : Bool :=
  (options.lookup name).any isOn

def narrow? (access : Access) (option : String × String) : Option Access :=
  match option.1 with
  | "mode" => match Access.ofText? option.2 with
    | some wanted => if access.permits wanted then some wanted else none
    | none => none
  | "cache" => if option.2 = "shared" ∨ option.2 = "private" then some access else none
  | _ => some access

def withOptions? (path : String) (options : List (String × String)) : Option Address :=
  match options.foldlM narrow? Access.create,
      FileSystem.ofText? ((options.reverse.lookup "vfs").getD "unix") with
  | some access, some system => some {
      path, access, system
      frozen := isSwitchedOn "immutable" options
      unlocked := isSwitchedOn "nolock" options }
  | _, _ => none

def ofPath (path : String) : Address := ⟨path, .create, .shared, false, false⟩

def ofText? (text : String) : Option Address :=
  if text.toList.contains '\x00' then none
  else match text.toList with
    | 'f' :: 'i' :: 'l' :: 'e' :: ':' :: rest => match afterMachine? rest with
      | none => none
      | some rest =>
        let rest := rest.takeWhile (· != '#')
        let path := rest.takeWhile (· != '?')
        withOptions? (textOf path) (readOptions (rest.drop (path.length + 1)))
    | _ => some (ofPath text)

end Address

end GuardedStore.Table
