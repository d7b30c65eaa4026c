import Criteria.Text.Pieces

/-!
# Variable paths

A path names a value inside data: segments joined by points, each a key of an object or an index of
an array. A path is relative to an alias when it is the alias or continues it after a point.
-/

namespace Criteria.Path

/-- What follows a name and a point, when the path continues the name so. -/
def after? (name path : String) : Option String :=
  let head := name.toList ++ ['.']
  if head.isPrefixOf path.toList then some (String.ofList (path.toList.drop head.length)) else none

/-- The path is relative to an alias of the given name. -/
def isRelativeTo (name path : String) : Bool := path = name || (after? name path).isSome

/-- The segments of a path; there is one more than there are points. -/
def segments (path : String) : List String := (Text.pieces '.' path.toList).map String.ofList

/-- The segment is written as an array index: decimal digits without a leading zero. -/
def isIndex (segment : String) : Bool :=
  match segment.toList with
  | [] => false
  | ['0'] => true
  | c :: rest => c != '0' && c.isDigit && rest.all Char.isDigit

/-- The number that an index segment spells. -/
def indexValue (segment : String) : Nat := Nat.ofDigitChars 10 segment.toList 0

end Criteria.Path
