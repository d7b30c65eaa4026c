import Criteria.Datum.Basic
import Criteria.Text.Blank

/-!
# Schemas of facets

A facet's values are described by data in the manner of JSON Schema. `Schema.ofDatum?` keeps of such
data what a catalog needs: the schemas it is composed of, the kind of its values, the schemas of
their parts, and words about them.

All data can be read this way. What is of another type than its place asks for is passed over, such
as a number in the place of a title or of a list of schemas; nothing is promised of data that holds
it, only of data that does not.
-/

namespace Criteria

/-- The kind of the values that a schema describes. -/
inductive SchemaKind
  | object | array | string | number | boolean
  /-- The schema does not say, or says something else. -/
  | unknown
  deriving DecidableEq, Repr

/-- What a schema says about its values to people. -/
structure SchemaNotes where
  title : Option String
  description : Option String
  /-- An example of a value. -/
  sample : Json

/-- A description of values. -/
inductive Schema
  /-- The values are described by further schemas, are of a kind, and have described parts: under
  names when they are objects, one by one when they are arrays. -/
  | node (composites : List Schema) (kind : SchemaKind) (properties : List (String × Schema))
      (items : Option Schema) (notes : SchemaNotes)

namespace Schema

/-- A text that is not blank, without the blanks around it. A value that is no text says nothing, also
where it is given in the place of a title. -/
def note? (value : Option Datum) : Option String :=
  match value.bind Datum.asString? with
  | some s => if Text.allBlank s then none else some (Text.strip s)
  | none => none

/-- The kind of one value. -/
def kindOfValue : Datum → SchemaKind
  | .atom (.scalar (.bool _)) => .boolean
  | .atom (.scalar (.int _)) => .number
  | .atom (.scalar (.double _)) => .number
  | .atom (.scalar (.string _)) => .string
  | .list _ => .array
  | _ => .unknown

/-- The first of the values that a schema enumerates. -/
def firstEnumerated? (data : Datum) : Option Datum := do
  (← (← data.get? "enum").asList?).head?

/-- The names of types that a schema gives. -/
def typeNames (data : Datum) : List String :=
  match data.get? "type" with
  | some (.string name) => [name]
  | some (.list items) => items.filterMap Datum.asString?
  | _ => []

/-- The kind of the values of a schema: by the types it names, the widest first; else by the parts
it describes; else by the first value it enumerates. -/
def kindOf (data : Datum) : SchemaKind :=
  let names := typeNames data
  let describes (name : String) := ((data.get? name).map Datum.isGiven).getD false
  if names.contains "object" then .object
  else if names.contains "array" then .array
  else if names.contains "number" || names.contains "integer" then .number
  else if names.contains "boolean" then .boolean
  else if names.contains "string" then .string
  else if describes "properties" then .object
  else if describes "items" then .array
  else ((firstEnumerated? data).map kindOfValue).getD .unknown

/-- The example that a schema gives: the first of several, else the only one, else the first
enumerated value. -/
def sampleOf (data : Datum) : Datum :=
  match (data.get? "examples").bind Datum.asList? with
  | some (first :: _) => first
  | _ =>
    match data.get? "example" with
    | some value => value
    | none => (firstEnumerated? data).getD .null

/-- What a schema says to people. -/
def notesOf (data : Datum) : SchemaNotes :=
  ⟨note? (data.get? "title"), note? (data.get? "description"), (sampleOf data).toJson⟩

/-- The parts of a schema that are schemas. -/
structure Parts where
  all : List Schema := []
  any : List Schema := []
  one : List Schema := []
  properties : List (String × Schema) := []
  items : Option Schema := none

mutual

/-- The schema that data is; only a record is one. -/
def ofDatum? : Datum → Option Schema
  | .record entries =>
    let parts := partsOf entries
    let data : Datum := .record entries
    some (.node (parts.all ++ parts.any ++ parts.one) (kindOf data) parts.properties parts.items
      (notesOf data))
  | _ => none

/-- The schemas among the values of some entries. Under these names a value that is no list, or no
record, holds none, also where it is given. -/
def partsOf : List (Atom × Datum) → Parts
  | [] => {}
  | (key, value) :: rest =>
    let parts := partsOf rest
    if key = .string "allOf" then
      match value with
      | .list members => { parts with all := schemasOf members }
      | _ => parts
    else if key = .string "anyOf" then
      match value with
      | .list members => { parts with any := schemasOf members }
      | _ => parts
    else if key = .string "oneOf" then
      match value with
      | .list members => { parts with one := schemasOf members }
      | _ => parts
    else if key = .string "properties" then
      match value with
      | .record entries => { parts with properties := propertiesOf entries }
      | _ => parts
    else if key = .string "items" then { parts with items := ofDatum? value }
    else parts

/-- The schemas among some values. -/
def schemasOf : List Datum → List Schema
  | [] => []
  | value :: rest => (ofDatum? value).toList ++ schemasOf rest

/-- The entries whose values are schemas. A key that is no text counts as the text it is shown by. -/
def propertiesOf : List (Atom × Datum) → List (String × Schema)
  | [] => []
  | (key, value) :: rest =>
    match ofDatum? value with
    | some schema => (key.text, schema) :: propertiesOf rest
    | none => propertiesOf rest

end

end Schema

end Criteria
