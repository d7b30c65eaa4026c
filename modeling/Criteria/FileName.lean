import Criteria.Text.Pieces

/-!
# File names

`FileName.normalize` is the form in which file names are shown and compared: steps that stay where
they are, `.` and empty ones, are left out. Steps upwards are kept, since what they lead to depends
on the files.
-/

namespace Criteria.FileName

/-- The steps of a name that lead somewhere. -/
def steps (name : List Char) : List (List Char) :=
  (Text.pieces '/' name).filter fun step => step ≠ [] && step ≠ ['.']

/-- What a name starts with: nothing, or one slash, or exactly two. -/
def root (name : List Char) : List Char :=
  match name.takeWhile (· = '/') with
  | [] => []
  | ['/', '/'] => ['/', '/']
  | _ => ['/']

/-- The normal form of a name; the name of the place itself is `.`. -/
def normalize (name : String) : String :=
  match root name.toList ++ ['/'].intercalate (steps name.toList) with
  | [] => "."
  | cs => String.ofList cs

end Criteria.FileName
