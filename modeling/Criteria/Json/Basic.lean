import Criteria.Number.Double

/-!
# JSON data

Values as JSON writes them, with two kinds of numbers: integers of any size, and doubles. An object
keeps its entries in the order in which they were written.

* `Scalar`: what a literal of the condition language can be;
* `Json.get?`, `Json.insert`: an object as a finite map;
* `Json.height`: how deep arrays and objects are nested;
* `Scalar.same`: equality of values, with numbers compared by value.
-/

namespace Criteria

/-- A value without parts. -/
inductive Scalar
  | null
  | bool (value : Bool)
  | int (value : Int)
  | double (value : Double)
  | string (value : String)
  deriving DecidableEq

namespace Scalar

/-- Equality of values: numbers by value, whatever their kind. A truth value is no number, and NaN
differs from itself. -/
def same : Scalar → Scalar → Bool
  | .int a, .double b => b.eqInt a
  | .double a, .int b => a.eqInt b
  | .double a, .double b => a.numEq b
  | a, b => decide (a = b)

end Scalar

/-- A JSON value. -/
inductive Json
  /-- A value without parts. -/
  | scalar (value : Scalar)
  /-- An array of values. -/
  | array (items : List Json)
  /-- Named values, each name at most once. -/
  | object (fields : List (String × Json))

namespace Json

instance : Inhabited Json := ⟨.scalar .null⟩

/-- The value `null`. -/
@[match_pattern] abbrev null : Json := .scalar .null

/-- A truth value. -/
@[match_pattern] abbrev bool (value : Bool) : Json := .scalar (.bool value)

/-- An integer. -/
@[match_pattern] abbrev int (value : Int) : Json := .scalar (.int value)

/-- A double. -/
@[match_pattern] abbrev double (value : Double) : Json := .scalar (.double value)

/-- A string. -/
@[match_pattern] abbrev string (value : String) : Json := .scalar (.string value)

/-- The entries of an object; other values have none. -/
def fields : Json → List (String × Json)
  | .object fields => fields
  | _ => []

/-- The value under a name in an object. -/
def get? (value : Json) (name : String) : Option Json := value.fields.lookup name

/-- Gives a name a value: at its place when it has one already, at the end otherwise. -/
def insert (fields : List (String × Json)) (name : String) (value : Json) : List (String × Json) :=
  match fields with
  | [] => [(name, value)]
  | (key, old) :: rest =>
    if key = name then (name, value) :: rest else (key, old) :: insert rest name value

/-- A text that may be missing. -/
def optionalText : Option String → Json
  | some s => .string s
  | none => .null

/-- A string value. -/
def asString? : Json → Option String
  | .string s => some s
  | _ => none

/-- The elements of an array. -/
def asArray? : Json → Option (List Json)
  | .array items => some items
  | _ => none

/-- The value counts as given: it is not `null`, `false`, zero, or an empty string, array or
object. -/
def isGiven : Json → Bool
  | .null => false
  | .bool b => b
  | .int n => n != 0
  | .double d => !d.eqInt 0
  | .string s => !s.isEmpty
  | .array items => !items.isEmpty
  | .object fields => !fields.isEmpty

mutual

/-- How many arrays and objects stand around the innermost value. -/
def height : Json → Nat
  | .scalar _ => 0
  | .array items => heightItems items + 1
  | .object fields => heightFields fields + 1

/-- The largest height of some items. -/
def heightItems : List Json → Nat
  | [] => 0
  | item :: rest => max (height item) (heightItems rest)

/-- The largest height of some entries. -/
def heightFields : List (String × Json) → Nat
  | [] => 0
  | (_, value) :: rest => max (height value) (heightFields rest)

end

end Json

end Criteria
