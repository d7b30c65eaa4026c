import Criteria.Catalog.Basic
import Criteria.Catalog.Facet
import Criteria.Catalog.Shape

/-!
# Catalog documents

A catalog document lists variables, describes facets, or both. `Catalog.ofDocument` refuses a
document that does not have the shape `catalogShape`; of an accepted one it takes the variables
first and those of the facets after them.
-/

namespace Criteria

/-- The shape of a listed variable. -/
def variableShape : Shape :=
  .record ["path", "type"]
    [("id", .text false false), ("path", .text false true), ("dslPath", .text false false),
      ("label", .text false false), ("group", .text false false),
      ("type", .oneOf (VariableType.all.map VariableType.name)), ("description", .text false false),
      ("example", .any),
      ("allowedOperators", .list (.oneOf (Comparison.all.map Comparison.symbol)) true)]
    none

/-- The shape of a facet. -/
def facetShape : Shape :=
  .record ["schema"]
    [("title", .text false false), ("description", .text false false),
      ("schema", .record [] [] (some .any))]
    none

/-- The shape of a catalog document. -/
def catalogShape : Shape :=
  .record []
    [("variables", .list variableShape false), ("facets", .record [] [] (some facetShape)),
      ("facetBasePath", .text true false)]
    none

/-- Why a document is not a catalog. -/
inductive DocumentError
  /-- The document does not have the shape of a catalog. -/
  | misshapen (issues : List ShapeIssue)
  /-- An entry is not a definition. -/
  | badEntry (error : DefinitionError)

/-- The ways in which a document is not a catalog. -/
def documentIssues (document : Datum) : List ShapeIssue := catalogShape.issues document

/-- A message about a source at a place of it, when the place is known. -/
def issueText (source place message : String) : String :=
  let location := if place.isEmpty then "" else " at " ++ place
  s!"[ERROR] {source}{location}: {message}"

/-- An issue of a source on one line. -/
def ShapeIssue.text (source : String) (issue : ShapeIssue) : String :=
  issueText source issue.placeText issue.fault.message

/-- A heading and one indented line for every issue. -/
def withIssues (heading : String) (issues : List String) : String :=
  issues.foldl (fun text issue => text ++ "\n  " ++ issue) heading

/-- The wording of a failure. -/
def DocumentError.message : DocumentError → String
  | .misshapen issues =>
    withIssues "Invalid catalog document:" (issues.map (ShapeIssue.text "<catalog>"))
  | .badEntry error => error.message

namespace Catalog

/-- The definitions that the facets of a document describe. -/
def documentFacets (document : Datum) : List Definition :=
  let base := ((document.get? "facetBasePath").bind Datum.asString?).getD ""
  facetDefinitions ((document.get? "facets").getD .null).entries
    (if base.isEmpty then defaultFacetBase else base)

/-- The catalog that a document describes, and the paths of the definitions left out. -/
def ofDocument (document : Datum) : Except DocumentError (Catalog × List String) :=
  match documentIssues document with
  | [] => do
    let entries := ((document.get? "variables").bind Datum.asList?).getD []
    let listed ← ((entries.map Datum.toJson).mapM Definition.ofJson).mapError .badEntry
    return ofDefinitions (listed ++ documentFacets document)
  | issues => .error (.misshapen issues)

end Catalog

end Criteria
