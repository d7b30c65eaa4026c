import Criteria.FileName

/-!
# Folders

A `Folder` keeps the texts of files by the steps that lead to them. `Folder.read?` follows a name
step by step: every step but the last leads from a folder, and so do empty steps and the steps `.`
and `..`. So a name that goes on after a file leads nowhere, though its normal form may not.
-/

namespace Criteria

/-- The texts of files, by their names as they are written. -/
abbrev Files := String → Option String

/-- Files with their texts, by the steps that lead to them. -/
structure Folder where
  files : List (List (List Char) × String)

namespace Folder

/-- The folder of some named files. -/
def ofFiles (files : List (String × String)) : Folder :=
  ⟨files.map fun (name, text) => (FileName.steps name.toList, text)⟩

/-- A file lies beyond the place, or the place is the folder itself. -/
def isFolder (folder : Folder) (place : List (List Char)) : Bool :=
  place.isEmpty || folder.files.any fun (steps, _) => place.isPrefixOf steps && place != steps

/-- Where steps lead from a place, when they do not leave the folder. -/
def walk (folder : Folder) (place : List (List Char)) :
    List (List Char) → Option (List (List Char))
  | [] => some place
  | step :: rest =>
    if !folder.isFolder place then none
    else if step = [] ∨ step = ['.'] then folder.walk place rest
    else if step = ['.', '.'] then
      if place = [] then none else folder.walk place.dropLast rest
    else folder.walk (place ++ [step]) rest

/-- The text of the file that a name leads to. -/
def read? (folder : Folder) (name : String) : Option String :=
  match name.toList with
  | '/' :: _ => none
  | cs => (folder.walk [] (Text.pieces '/' cs)).bind fun place => folder.files.lookup place

end Folder

end Criteria
