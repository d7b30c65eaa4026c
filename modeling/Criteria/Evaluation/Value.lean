import Criteria.Json.Basic
import Criteria.Number.Hexadecimal
import Criteria.Number.Limit
import Criteria.Operator
import Criteria.Path
import Criteria.Text.Blank

/-!
# Values during evaluation

A value is data, or missing. Arrays and objects carry a `Mark`, the place where they live: two of
them are the same only when they live at the same place, however alike they look.

* `Value.truthy`, `Value.strictEq`, `Value.toNumber`: what a value counts as in a condition;
* `Value.read`: the value at a path inside another.
-/

namespace Criteria

/-- Where an array or object lives: in which tree of data, and on which way from its root, last step
first. -/
structure Mark where
  root : Nat
  way : List Nat
  deriving DecidableEq, Repr

/-- A value during evaluation. -/
inductive Value
  /-- What a path that leads nowhere reads. -/
  | missing
  /-- A value without parts. -/
  | scalar (value : Scalar)
  /-- An array that lives at a place. -/
  | array (mark : Mark) (items : List Value)
  /-- An object that lives at a place. -/
  | object (mark : Mark) (fields : List (String × Value))

/-- Why an evaluation fails. -/
inductive EvaluationError
  /-- An object of the expression does not have exactly one key. -/
  | notOneKey
  /-- A key of the expression is no operation. -/
  | unsupported (key : String)
  /-- The operand of a variable is neither a string nor a list with something in it. -/
  | badVariable
  /-- The operand of a variable is a list that does not start with a string. -/
  | badPath
  /-- A comparison does not have two operands. -/
  | comparisonOperands (comparison : Comparison)
  /-- A quantifier does not have two or three operands. -/
  | quantifierOperands (quantifier : Quantifier)
  /-- The collection of a quantifier is not an array. -/
  | notAnArray (quantifier : Quantifier) (path : Option String) (kind : String)
  /-- An integer is too large for the doubles that orderings compare. -/
  | numberTooLarge
  /-- An array index has more digits than are read. -/
  | indexTooLong (digits : Nat)
  deriving DecidableEq, Repr

namespace Value

instance : Inhabited Value := ⟨.missing⟩

/-- A truth value. -/
@[match_pattern] abbrev bool (b : Bool) : Value := .scalar (.bool b)

/-! ## Data as values -/

mutual

/-- The data as a value that lives at a place. -/
def ofJson (mark : Mark) : Json → Value
  | .scalar value => .scalar value
  | .array items => .array mark (ofItems mark 0 items)
  | .object fields => .object mark (ofFields mark 0 fields)

/-- The items of an array that lives at a place, from the given index on. -/
def ofItems (mark : Mark) (index : Nat) : List Json → List Value
  | [] => []
  | item :: rest => ofJson ⟨mark.root, index :: mark.way⟩ item :: ofItems mark (index + 1) rest

/-- The entries of an object that lives at a place, from the given index on. -/
def ofFields (mark : Mark) (index : Nat) : List (String × Json) → List (String × Value)
  | [] => []
  | (name, value) :: rest =>
    (name, ofJson ⟨mark.root, index :: mark.way⟩ value) :: ofFields mark (index + 1) rest

end

mutual

/-- The value moved, with all its parts, to a place. -/
def moveTo (mark : Mark) : Value → Value
  | .missing => .missing
  | .scalar value => .scalar value
  | .array _ items => .array mark (moveItems mark 0 items)
  | .object _ fields => .object mark (moveFields mark 0 fields)

/-- Items moved into an array at a place, from the given index on. -/
def moveItems (mark : Mark) (index : Nat) : List Value → List Value
  | [] => []
  | item :: rest => moveTo ⟨mark.root, index :: mark.way⟩ item :: moveItems mark (index + 1) rest

/-- Entries moved into an object at a place, from the given index on. -/
def moveFields (mark : Mark) (index : Nat) : List (String × Value) → List (String × Value)
  | [] => []
  | (name, value) :: rest =>
    (name, moveTo ⟨mark.root, index :: mark.way⟩ value) :: moveFields mark (index + 1) rest

end

mutual

/-- The value as data; what is missing becomes `null`. -/
def toJson : Value → Json
  | .missing => .null
  | .scalar value => .scalar value
  | .array _ items => .array (toItems items)
  | .object _ fields => .object (toFields fields)

/-- The items as data. -/
def toItems : List Value → List Json
  | [] => []
  | item :: rest => toJson item :: toItems rest

/-- The entries as data. -/
def toFields : List (String × Value) → List (String × Json)
  | [] => []
  | (name, value) :: rest => (name, toJson value) :: toFields rest

end

/-! ## Truth, equality and numbers -/

/-- Everything counts as true except what is missing, `null`, `false`, zero, NaN and the empty
string. -/
def truthy : Value → Bool
  | .missing => false
  | .scalar .null => false
  | .scalar (.bool b) => b
  | .scalar (.int n) => n != 0
  | .scalar (.double d) => !(d.eqInt 0 || d == .nan)
  | .scalar (.string s) => s != ""
  | .array .. => true
  | .object .. => true

/-- Equality without conversion: values of different kinds differ, numbers are equal by value, and
arrays and objects are equal only to themselves. -/
def strictEq : Value → Value → Bool
  | .missing, .missing => true
  | .scalar a, .scalar b => a.same b
  | .array a _, .array b _ => a == b
  | .object a _, .object b _ => a == b
  | _, _ => false

/-- The name of the kind of a value. -/
def kind : Value → String
  | .missing => "undefined"
  | .scalar .null => "null"
  | .scalar (.bool _) => "boolean"
  | .scalar (.int _) => "number"
  | .scalar (.double _) => "number"
  | .scalar (.string _) => "string"
  | .array .. => "array"
  | .object .. => "object"

/-- The double that a decimal numeral denotes: an optional sign, digits with an optional point among
or around them, and an optional exponent. -/
def decimalNumber? (cs : List Char) : Option Double :=
  let (negative, unsigned) := Decimal.splitSign cs
  let (whole, afterWhole) := Decimal.splitDigits unsigned
  let (fraction, afterFraction) := match afterWhole with
    | '.' :: tail => Decimal.splitDigits tail
    | _ => ([], afterWhole)
  let (exponent, rest) := Decimal.splitExponent afterFraction
  if (whole.isEmpty ∧ fraction.isEmpty) ∨ ¬rest.isEmpty then none
  else some (Double.ofDecimal negative (Decimal.ofParts whole fraction (exponent.getD 0)))

/-- The integer that a hexadecimal numeral denotes: `0x` and digits. -/
def hexNumber? : List Char → Option Nat
  | '0' :: x :: first :: rest =>
    if x = 'x' ∨ x = 'X' then Hexadecimal.read? (first :: rest) else none
  | _ => none

/-- An integer as a double, when there is a double near it. -/
def intNumber (n : Int) : Except EvaluationError Double :=
  let d := Double.ofInt n
  if d.isFinite then .ok d else .error .numberTooLarge

/-- The number that a text spells; blanks around it do not count, no text is zero, and a text that
spells no number is NaN. -/
def stringNumber (s : String) : Except EvaluationError Double :=
  let cs := Text.trimBlank s.toList
  if cs.isEmpty then .ok (Double.zero false)
  else match decimalNumber? cs with
    | some d => .ok d
    | none =>
      if cs = "Infinity".toList ∨ cs = "+Infinity".toList then .ok (.infinite false)
      else if cs = "-Infinity".toList then .ok (.infinite true)
      else match hexNumber? cs with
        | some n => intNumber n
        | none => .ok .nan

/-- The number that a value without parts counts as in an ordering. -/
def scalarNumber : Scalar → Except EvaluationError Double
  | .null => .ok (Double.zero false)
  | .bool b => .ok (Double.ofInt (if b then 1 else 0))
  | .int n => intNumber n
  | .double d => .ok d
  | .string s => stringNumber s

/-- The number that a value counts as in an ordering. An empty array is zero, an array of one value
without parts is that value's number, and NaN stands for whatever has no number. -/
def toNumber : Value → Except EvaluationError Double
  | .scalar value => scalarNumber value
  | .array _ [] => .ok (Double.zero false)
  | .array _ [.scalar value] => scalarNumber value
  | _ => .ok .nan

/-! ## Reading paths -/

/-- The part of a value that a segment of a path names: the entry of an object under that name, or
the item of an array at that index. -/
def part? (value : Value) (segment : String) : Except EvaluationError (Option Value) :=
  match value with
  | .object _ fields => .ok (fields.lookup segment)
  | .array _ items =>
    if Path.isIndex segment then
      if maxIntDigits < segment.length then .error (.indexTooLong segment.length)
      else .ok items[Path.indexValue segment]?
    else .ok none
  | _ => .ok none

/-- The value that a list of segments leads to. -/
def follow (value : Value) : List String → Except EvaluationError (Option Value)
  | [] => .ok (some value)
  | segment :: rest => do
    match ← value.part? segment with
    | some next => next.follow rest
    | none => return none

/-- The value at a path, when the path leads to one. The empty path leads to the whole value. -/
def read (value : Value) (path : String) : Except EvaluationError (Option Value) :=
  if path = "" then .ok (some value) else value.follow (Path.segments path)

end Value

end Criteria
