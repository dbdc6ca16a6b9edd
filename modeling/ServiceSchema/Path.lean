/-
  ServiceSchema.Path — paths as text.

  Joining never normalises: an absolute second part replaces the first, and one slash
  goes between the parts unless the first is empty or already ends in one.
-/

namespace ServiceSchema.Path

def isAbsolute (path : String) : Bool := path.toList.head? == some '/'

/-- The path `part` seen from `base`. -/
def join (base part : String) : String :=
  if isAbsolute part || base.isEmpty then part
  else if base.toList.getLast? == some '/' then base ++ part
  else base ++ "/" ++ part

/-- The pieces between slashes, empty ones included. -/
def pieces (path : String) : List String :=
  (path.toList.splitOn '/').map String.ofList

/-- The names along a path: neither empty pieces nor `.` lead anywhere. -/
def steps (path : String) : List String := (pieces path).filter fun p => p ≠ "" ∧ p ≠ "."

end ServiceSchema.Path
