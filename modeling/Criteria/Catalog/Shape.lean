import Criteria.Datum.Order

/-!
# Shapes of documents

A `Shape` says what data must look like; `Shape.issues` lists every way in which data does not. An
issue names its place in the data: the keys and indices on the way to it. Issues are ordered by
their places, step by step as text; issues at one place keep the order of the rules.
-/

namespace Criteria

/-- A step from data to a part of it. -/
inductive Step
  | key (atom : Atom)
  | index (i : Nat)
  deriving DecidableEq

/-- What data must look like. -/
inductive Shape
  /-- Anything. -/
  | any
  /-- One of some texts. -/
  | oneOf (names : List String)
  /-- A text, perhaps not an empty one, perhaps a path. -/
  | text (nonempty path : Bool)
  /-- A list of items, perhaps all different. -/
  | list (item : Shape) (distinct : Bool)
  /-- A record in which some names must occur. Other keys than those of the fields are allowed only
  where there is a shape for them. -/
  | record (required : List String) (fields : List (String × Shape)) (others : Option Shape)

/-- A way in which data does not have a shape. -/
inductive ShapeFault
  | notOfType (value : Datum) (type : String)
  | notOneOf (value : Datum) (names : List String)
  | notPath (value : Datum)
  | isEmpty (value : Datum)
  | notDistinct (value : Datum)
  | missing (name : String)
  | unexpected (keys : List Atom)

/-- A fault at a place of the data. -/
structure ShapeIssue where
  place : List Step
  fault : ShapeFault

namespace ShapeFault

/-- The wording of a fault. -/
def message : ShapeFault → String
  | .notOfType value type => s!"{value.inspect} is not of type '{type}'"
  | .notOneOf value names =>
    value.inspect ++ " is not one of " ++ (Datum.list (names.map .string)).inspect
  | .notPath value => value.inspect ++ " does not match '^[A-Za-z_][A-Za-z0-9_.]*$'"
  | .isEmpty value => s!"{value.inspect} should be non-empty"
  | .notDistinct value => s!"{value.inspect} has non-unique elements"
  | .missing name => s!"{Json.inspectString name} is a required property"
  | .unexpected keys =>
    let shown := ", ".intercalate (keys.map Atom.inspect)
    let verb := if keys.length = 1 then "was" else "were"
    s!"Additional properties are not allowed ({shown} {verb} unexpected)"

/-- The atoms that the wording shows. -/
def atoms : ShapeFault → List Atom
  | .notOfType value _ => value.atoms
  | .notOneOf value _ => value.atoms
  | .notPath value => value.atoms
  | .isEmpty value => value.atoms
  | .notDistinct value => value.atoms
  | .missing _ => []
  | .unexpected keys => keys

end ShapeFault

namespace Shape

/-- A letter of a name, and not a digit. -/
def isPathStart (c : Char) : Bool := c.isAlpha || c = '_'

/-- A character that may follow in a path. -/
def isPathChar (c : Char) : Bool := c.isAlphanum || c = '_' || c = '.'

/-- The text is a path as conditions spell it; one line feed may follow it. -/
def isPath (s : String) : Bool :=
  match s.toList with
  | [] => false
  | c :: rest =>
    let rest := if rest.getLast? = some '\n' then rest.dropLast else rest
    isPathStart c && rest.all isPathChar

/-- The key is the name of a field. -/
def isField (fields : List (String × Shape)) : Atom → Bool
  | .string name => (fields.lookup name).isSome
  | _ => false

mutual

/-- The faults of data at a place, rule by rule. -/
def faults (place : List Step) (value : Datum) : Shape → List ShapeIssue
  | .any => []
  | .oneOf names =>
    match value with
    | .string s => if names.contains s then [] else [⟨place, .notOneOf value names⟩]
    | _ => [⟨place, .notOneOf value names⟩]
  | .text nonempty path =>
    match value with
    | .string s =>
      (if path && !isPath s then [⟨place, .notPath value⟩] else []) ++
        (if nonempty && s.isEmpty then [⟨place, .isEmpty value⟩] else [])
    | _ => [⟨place, .notOfType value "string"⟩]
  | .list item distinct =>
    match value with
    | .list items =>
      ((List.range items.length).zip items).flatMap (fun (i, x) =>
          faults (place ++ [.index i]) x item) ++
        (if distinct && !Datum.allDistinct items then [⟨place, .notDistinct value⟩] else [])
    | _ => [⟨place, .notOfType value "array"⟩]
  | .record required fields others =>
    match value with
    | .record entries =>
      let absent := required.filter fun name => (value.get? name).isNone
      let extra := entries.filter fun entry => !isField fields entry.1
      absent.map (fun name => ⟨place, .missing name⟩) ++ faultsOfFields place value fields ++
        match others with
        | some shape => extra.flatMap fun (key, x) => faults (place ++ [.key key]) x shape
        | none =>
          if extra.isEmpty then []
          else [⟨place, .unexpected ((extra.map (·.1)).mergeSort fun a b => a.text ≤ b.text)⟩]
    | _ => [⟨place, .notOfType value "object"⟩]

/-- The faults of the entries that are fields. -/
def faultsOfFields (place : List Step) (value : Datum) :
    List (String × Shape) → List ShapeIssue
  | [] => []
  | (name, shape) :: rest =>
    (match value.get? name with
      | some x => faults (place ++ [.key (.string name)]) x shape
      | none => []) ++ faultsOfFields place value rest

end

end Shape

namespace Step

/-- A step as text. -/
def text : Step → String
  | .key atom => atom.text
  | .index i => toString i

/-- A step as it is written in a place: in brackets when it is an index, an integer or a truth
value. -/
def shown (step : Step) : String :=
  match step with
  | .key (.scalar (.int _)) => "[" ++ step.text ++ "]"
  | .key (.scalar (.bool _)) => "[" ++ step.text ++ "]"
  | .key atom => atom.text
  | .index _ => "[" ++ step.text ++ "]"

end Step

/-- Leaves out the slash before an opening bracket. -/
def dropSlashes : List Char → List Char
  | [] => []
  | '/' :: '[' :: rest => '[' :: dropSlashes rest
  | c :: rest => c :: dropSlashes rest

namespace ShapeIssue

/-- The place of an issue as text: keys and indices, with slashes between keys. -/
def placeText (issue : ShapeIssue) : String :=
  String.ofList (dropSlashes ("/".intercalate (issue.place.map Step.shown)).toList)

/-- The issue comes no later than another in the order of places. -/
def placedBefore (a b : ShapeIssue) : Bool :=
  !List.lex (b.place.map Step.text) (a.place.map Step.text) fun s t => decide (s < t)

/-- The atoms that the issue shows. -/
def atoms (issue : ShapeIssue) : List Atom :=
  issue.place.filterMap (fun
    | .key atom => some atom
    | .index _ => none) ++ issue.fault.atoms

end ShapeIssue

/-- The ways in which data does not have a shape, in the order of their places. -/
def Shape.issues (shape : Shape) (value : Datum) : List ShapeIssue :=
  (shape.faults [] value).mergeSort ShapeIssue.placedBefore

end Criteria
