import Criteria.Json.Inspect
import Criteria.Operator

/-!
# Variable definitions

What a catalog knows about a variable: its path, its type, the comparisons it may take part in, and
what is for people, which is kept as it is given. `Definition.ofJson` reads one from data and
`Definition.toJson` writes it.
-/

namespace Criteria

/-- The declared type of a variable. -/
inductive VariableType
  | string | number | boolean | array
  deriving DecidableEq, Repr

/-- A name that is not among those asked for. -/
structure UnknownName where
  /-- What was given as a name. -/
  given : Json
  /-- What the names stand for. -/
  kind : String

/-- The wording of the fault. -/
def UnknownName.message (error : UnknownName) : String :=
  s!"{error.given.inspect} is not a valid {error.kind}"

namespace VariableType

/-- The name of a type. -/
def name : VariableType → String
  | .string => "string"
  | .number => "number"
  | .boolean => "boolean"
  | .array => "array"

/-- Every type. -/
def all : List VariableType := [.string, .number, .boolean, .array]

/-- The type with a given name. -/
def ofName? (s : String) : Option VariableType := all.find? (·.name = s)

/-- The type that a value names. -/
def ofJson (value : Json) : Except UnknownName VariableType :=
  match value.asString?.bind ofName? with
  | some type => .ok type
  | none => .error ⟨value, "VariableType"⟩

/-- The comparisons of a type where none are declared: numbers are ordered, other values are only
compared for equality. -/
def comparisons : VariableType → List Comparison
  | .number => Comparison.all
  | _ => [.eq, .ne]

end VariableType

/-- What a catalog knows about a variable. -/
structure Definition where
  /-- The path by which conditions refer to the variable. -/
  path : String
  type : VariableType
  /-- The comparisons that the variable may take part in. -/
  comparisons : List Comparison
  /-- The name of the entry. -/
  id : Json
  label : Json
  /-- The path that authors are shown. -/
  shownPath : Json
  group : Json
  description : Json
  /-- An example of a value. -/
  sample : Json

/-- Why data is not a definition. -/
inductive DefinitionError
  /-- An entry that every definition has is missing. -/
  | missing (name : String)
  /-- The type is not among the types. -/
  | unknownType (error : UnknownName)
  /-- Some operators are not comparisons. -/
  | unsupported (path : String) (operators : List String)

/-- The wording of a fault. -/
def DefinitionError.message : DefinitionError → String
  | .missing name => Json.inspectString name
  | .unknownType error => error.message
  | .unsupported path operators =>
    s!"Variable '{path}' declares unsupported operators: " ++ ", ".intercalate operators

namespace Definition

/-- The value under the first of two names that holds something given, else that under the second. -/
def either (data : Json) (first second : String) : Option Json :=
  match data.get? first with
  | some value => if value.isGiven then some value else data.get? second
  | none => data.get? second

/-- The operator names that a value lists: an array its strings, an object its names and a string its
characters. Anything else, alone or in an array, is passed over. It is not in data of the shape that
documents have, and nothing is promised of data that it is in. -/
def operatorNames : Json → List String
  | .array items => items.filterMap Json.asString?
  | .object fields => fields.map (·.1)
  | .string s => s.toList.map fun c => String.ofList [c]
  | _ => []

/-- The comparisons that a variable declares, or those of its type when it declares none. -/
def readComparisons (path : String) (type : VariableType) (names : List String) :
    Except DefinitionError (List Comparison) :=
  if names.isEmpty then .ok type.comparisons
  else
    match names.filter fun name => (Comparison.ofSymbol? name).isNone with
    | [] => .ok (names.filterMap Comparison.ofSymbol?)
    | unknown => .error (.unsupported path unknown)

/-- What is given under a name, or else a text. -/
def givenOr (data : Json) (name otherwise : String) : Json :=
  match data.get? name with
  | some value => if value.isGiven then value else .string otherwise
  | none => .string otherwise

/-- The value under a name; without one there is `null`. -/
def entry (data : Json) (name : String) : Json := (data.get? name).getD .null

/-- The path that authors are shown: the one given, unless it is `null`, or else the path. -/
def shownOr (data : Json) (path : String) : Json :=
  match either data "dsl_path" "dslPath" with
  | none => .string path
  | some .null => .string path
  | some value => value

/-- The definition that data describes. Entries of several words are found under either spelling. A
path that is no text counts as the text it is shown by, and operators that are no names are passed
over: of data like this, which has not the shape that documents have, nothing is promised. -/
def ofJson (data : Json) : Except DefinitionError Definition := do
  let path ← match data.get? "path" with
    | some value => pure (value.asString?.getD value.inspect)
    | none => throw (.missing "path")
  let type ← match data.get? "type" with
    | some value => (VariableType.ofJson value).mapError .unknownType
    | none => throw (.missing "type")
  let names := operatorNames ((either data "allowed_operators" "allowedOperators").getD .null)
  let comparisons ← readComparisons path type names
  return {
    path
    type
    comparisons
    id := givenOr data "id" path
    label := givenOr data "label" path
    shownPath := shownOr data path
    group := entry data "group"
    description := entry data "description"
    sample := entry data "example" }

/-- The definition as data. -/
def toJson (d : Definition) : Json :=
  .object [
    ("id", d.id),
    ("path", .string d.path),
    ("dslPath", d.shownPath),
    ("label", d.label),
    ("group", d.group),
    ("type", .string d.type.name),
    ("description", d.description),
    ("example", d.sample),
    ("allowedOperators", .array (d.comparisons.map fun c => .string c.symbol))]

end Definition

end Criteria
