import Criteria.Catalog.Definition
import Criteria.Catalog.Label
import Criteria.Catalog.Schema
import Criteria.Firsts

/-!
# Variables from facets

A facet describes a piece of data by a schema; `facetDefinitions` derives a variable for every array
and every plain value in it. The path of a variable is the place of the facet's value followed by
the keys on the way down; arrays are passed through. Where several schemas describe one path, the
first on the way counts: those a schema is composed of come before the schema itself, an array
before its items. Facets of any data have variables, since schemas are read from any data
(`Schema.ofDatum?`); where parts of a schema are ill-typed, the variables are those of the others.
-/

namespace Criteria

/-- Where facets are kept in the data, unless said otherwise. -/
def defaultFacetBase : String := "metadata.runContextSnapshot.facets"

/-- What is known on the way down into a facet. -/
structure FacetContext where
  /-- The title of the facet. -/
  title : String
  /-- The place of the facet's value. -/
  base : String
  /-- The description that holds where a schema gives none. -/
  description : Option String
  /-- The keys on the way. -/
  keys : List String
  /-- The labels of the keys. -/
  labels : List String

namespace FacetContext

/-- The path of what is described here. -/
def path (context : FacetContext) : String := ".".intercalate (context.base :: context.keys)

/-- The variable that is described here. -/
def definition (context : FacetContext) (type : VariableType) (notes : SchemaNotes) : Definition where
  path := context.path
  type
  comparisons := type.comparisons
  id := .string context.path
  label := .string (" · ".intercalate (context.title :: context.labels))
  shownPath := .string context.path
  group := .string context.title
  description := .optionalText (notes.description.or context.description)
  sample := notes.sample

/-- One key further down, to a schema with the given notes. -/
def enter (context : FacetContext) (key : String) (notes : SchemaNotes) : FacetContext :=
  { context with
    description := notes.description.or context.description
    keys := context.keys ++ [key]
    labels := context.labels ++ [notes.title.getD (Label.ofName key)] }

end FacetContext

namespace Schema

/-- What a schema says to people. -/
def notes : Schema → SchemaNotes
  | .node _ _ _ _ notes => notes

mutual

/-- The variables that a schema describes, in order; a path may occur more than once. -/
def definitions (context : FacetContext) : Schema → List Definition
  | .node composites kind properties items notes =>
    definitionsOfAll context composites ++
      match kind with
      | .object => definitionsOfProperties context properties
      | .array => context.definition .array notes :: definitionsOfItems context items
      | .string => [context.definition .string notes]
      | .number => [context.definition .number notes]
      | .boolean => [context.definition .boolean notes]
      | .unknown => []

/-- The variables that some schemas describe at one place. -/
def definitionsOfAll (context : FacetContext) : List Schema → List Definition
  | [] => []
  | schema :: rest => definitions context schema ++ definitionsOfAll context rest

/-- The variables that the items of an array have. -/
def definitionsOfItems (context : FacetContext) : Option Schema → List Definition
  | none => []
  | some schema => definitions context schema

/-- The variables that the entries of an object have. -/
def definitionsOfProperties (context : FacetContext) : List (String × Schema) → List Definition
  | [] => []
  | (key, schema) :: rest =>
    definitions (context.enter key schema.notes) schema ++ definitionsOfProperties context rest

end

end Schema

/-- The variables that one facet describes, in order. -/
def facetVariables (base name : String) (facet : Datum) : List Definition :=
  let context : FacetContext :=
    { title := (Schema.note? (facet.get? "title")).getD (Label.ofName name)
      base := base ++ "." ++ name ++ ".value"
      description := Schema.note? (facet.get? "description")
      keys := []
      labels := [] }
  match (facet.get? "schema").bind Schema.ofDatum? with
  | some schema => schema.definitions context
  | none => []

/-- The variables that some facets describe, the first for every path, in the order of the paths. -/
def facetDefinitions (facets : List (Atom × Datum)) (base : String) : List Definition :=
  let all := facets.flatMap fun (key, facet) => facetVariables base key.text facet
  (firstsBy Definition.path all).mergeSort fun a b => a.path ≤ b.path

end Criteria
