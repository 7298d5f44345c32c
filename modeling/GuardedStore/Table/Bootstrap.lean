import GuardedStore.Error.Basic
import GuardedStore.Table.Image

/-!
# Taking up a database file

A file is taken up if it belongs to nobody or to this product and if its schema is not of a later
version.  Its schema is then brought to the newest version and both stamps are set.  All of this is
one transaction: a file that is refused stays as it is.
-/

namespace GuardedStore.Table

def productId : Int32 := 0x4C454146

def int32? (n : Int) : Option Int32 :=
  if -0x80000000 ≤ n ∧ n < 0x80000000 then some (Int32.ofInt n) else none

namespace Image

/-- The version that a file of this product records, zero if it records none. -/
def version (path : String) (versions : List (Int × Int)) : Except StoreError Nat :=
  match versions with
  | [] => .ok 0
  | (id, number) :: _ => match int32? id with
    | none => .error (.database "number out of range")
    | some id =>
      if id ≠ productId then .error (.storage (.foreignDatabase path id))
      else if number < 0 then .error (.storage (.impossibleSchema path number))
      else if newestSchema < number.toNat then .error (.storage (.laterSchema path number.toNat))
      else .ok number.toNat

/-- The revisions of the schema after a version.  The first one makes the table of values. -/
def revise (image : Image) (version : Nat) : Except StoreError Image :=
  if version < newestSchema then
    match image.rows with
    | some _ => .error (.database "the table exists already")
    | none => .ok { image with
        rows := some .empty
        versions := some [(productId.toInt, (newestSchema : Int))] }
  else .ok image

/-- Brings a file to the newest version, or refuses it. -/
def bootstrap (path : String) (image : Image) : Except StoreError Image :=
  if image.applicationId ≠ 0 ∧ image.applicationId ≠ productId then
    .error (.storage (.foreignDatabase path image.applicationId))
  else
    let versions := image.versions.getD []
    match version path versions with
    | .error e => .error e
    | .ok current => match revise { image with versions := some versions } current with
      | .error e => .error e
      | .ok image => .ok { image with applicationId := productId }

end Image

end GuardedStore.Table
