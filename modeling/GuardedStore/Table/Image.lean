import GuardedStore.SortedMap

/-!
# Database files

As much of a database file as a store can see or change: the stamps that say whose file it is and
which version its schema has, and the table of its values.
-/

namespace GuardedStore.Table

/-- The state of a database file. -/
structure Image where
  -- the number of the product that the file belongs to, zero if it belongs to none
  applicationId : Int32
  -- whether the file is in the mode of logging ahead
  writeAhead : Bool
  -- the rows of the table of versions, if it exists: numbers of products and of versions
  versions : Option (List (Int × Int))
  -- the rows of the table of values, if it exists
  rows : Option (SortedMap String String)
  others : List String
  deriving Repr, DecidableEq

namespace Image

def blank : Image := ⟨0, false, none, none, []⟩

instance : Inhabited Image := ⟨blank⟩

/-- What a database file starts with, as a text. -/
def magic : String := "SQLite format 3\x00"

end Image

end GuardedStore.Table
