import Criteria.Catalog.Document
import Criteria.Yaml.Reader

/-!
# Catalog files

`Catalog.ofFile` is the catalog that the text of a file describes. A failure is a
`CatalogFileError`, which names the file; `CatalogFileError.issues` says what is wrong in it. A value
that cannot be had, in the file or in the issues, is a failure of its own
(`CatalogFileError.valueFault?`).
-/

namespace Criteria

/-- What is wrong with a catalog file. -/
inductive CatalogFileFault
  /-- There is no such file. -/
  | notFound
  /-- The text cannot be read. -/
  | unreadable
  /-- The text spells a value that cannot be had, or an issue would show one. -/
  | value (fault : ValueFault)
  /-- The text holds no value. -/
  | blank
  /-- The text is not a catalog document. -/
  | document (error : DocumentError)

/-- Why a file gives no catalog. -/
structure CatalogFileError where
  /-- The name of the file. -/
  file : String
  fault : CatalogFileFault

namespace CatalogFileError

/-- What is wrong in the file: places and messages. -/
def issues (error : CatalogFileError) : List (String × String) :=
  match error.fault with
  | .notFound => []
  | .unreadable => [("", "YAML parse error:")]
  | .value _ => []
  | .blank => [("", "File is empty or contains only whitespace")]
  | .document (.misshapen issues) => issues.map fun issue => (issue.placeText, issue.fault.message)
  | .document (.badEntry _) => []

/-- The wording of a failure, without the issues. -/
def heading (error : CatalogFileError) : String :=
  match error.fault with
  | .notFound => s!"Catalog file not found: {error.file}"
  | .value fault => fault.message
  | .document (.badEntry entry) => entry.message
  | _ => s!"Invalid catalog file {error.file}:"

/-- The wording of a failure. -/
def message (error : CatalogFileError) : String :=
  withIssues error.heading
    (error.issues.map fun (place, message) => issueText error.file place message)

/-- The value that cannot be had. -/
def valueFault? (error : CatalogFileError) : Option ValueFault :=
  match error.fault with
  | .value fault => some fault
  | _ => none

end CatalogFileError

/-- The atom is an integer of more digits than are written. -/
def Atom.isUnwritable : Atom → Bool
  | .scalar (.int n) => Nat.pow 10 maxIntDigits ≤ n.natAbs
  | _ => false

/-- Why a document is no catalog. -/
def DocumentError.fault : DocumentError → CatalogFileFault
  | .misshapen issues =>
    if issues.any fun issue => issue.atoms.any Atom.isUnwritable then .value .unwritable
    else .document (.misshapen issues)
  | error => .document error

/-- The catalog that a file describes, and the paths of the definitions left out; `none` stands for
the text of a file that does not exist. -/
def Catalog.ofFile (file : String) (text : Option String) :
    Except CatalogFileError (Catalog × List String) :=
  match text with
  | none => .error ⟨file, .notFound⟩
  | some text =>
    match Yaml.read text with
    | .error .unreadable => .error ⟨file, .unreadable⟩
    | .error (.value fault) => .error ⟨file, .value fault⟩
    | .ok .null => .error ⟨file, .blank⟩
    | .ok document => (Catalog.ofDocument document).mapError fun error => ⟨file, error.fault⟩

end Criteria
