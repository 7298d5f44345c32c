/-!
# Blank characters

Names in a configuration may be surrounded by blanks and written in either case.  A blank is a
character with the property *White_Space*; case is that of the letters `A`–`Z` alone.
-/

namespace GuardedStore.Text

def isBlank (c : Char) : Bool :=
  let n := c.toNat
  (0x09 ≤ n && n ≤ 0x0D) || n == 0x20 || n == 0x85 || n == 0xA0 || n == 0x1680 ||
  (0x2000 ≤ n && n ≤ 0x200A) || n == 0x2028 || n == 0x2029 || n == 0x202F || n == 0x205F ||
  n == 0x3000

def trim (text : String) : String :=
  String.ofList (((text.toList.dropWhile isBlank).reverse.dropWhile isBlank).reverse)

/-- Whether two texts differ at most in the case of the letters `A`–`Z`. -/
def equalIgnoringCase (a b : String) : Bool :=
  a.toList.map Char.toLower == b.toList.map Char.toLower

end GuardedStore.Text
