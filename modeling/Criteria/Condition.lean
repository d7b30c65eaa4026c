import Criteria.Check
import Criteria.Expr.Parser
import Criteria.Expr.Text
import Criteria.Logic.Compile
import Criteria.Logic.Import

/-!
# Conditions

A condition is written as text and kept as JSON-Logic. `Condition.parse` goes from text to a checked
condition in all its forms; `Condition.write` goes from JSON-Logic back to the canonical text.
Failures are told to authors as `Diagnostic`s.
-/

namespace Criteria

/-- A condition that its catalog allows. -/
structure Condition where
  expr : Expr
  /-- The persisted form. -/
  logic : Json
  /-- The canonical text. -/
  canonical : String
  /-- The catalog variables that the condition refers to, in the order of the text. -/
  dependencies : List Definition
  warnings : List WarningCode

/-- Why a text is not a condition that a catalog allows. -/
inductive ConditionError
  /-- The text is blank. -/
  | blank
  /-- The text cannot be read. -/
  | unreadable (error : SyntaxError)
  /-- The catalog does not allow the condition. -/
  | invalid (findings : List Located)

/-- Why JSON-Logic cannot be written as text. -/
inductive WritingError
  /-- The JSON-Logic is nested too deeply. -/
  | tooDeep
  /-- The JSON-Logic is not a condition. -/
  | malformed (error : LogicError)
  /-- The catalog does not allow the condition. -/
  | invalid (findings : List Located)
  /-- A number in it has no numeral. -/
  | unwritable (number : Double)

namespace Condition

/-- What is odd about a condition with a given canonical text. -/
def warningsFor (canonical : String) : List WarningCode :=
  if canonical = "true" then [.noopTrue] else []

/-- All forms of an expression. -/
def ofExpr (catalog : Catalog) (expr : Expr) : Condition where
  expr
  logic := expr.toLogic
  canonical := expr.text
  dependencies := catalog.definitionsUnder expr
  warnings := warningsFor expr.text

/-- The condition that a text is, when the catalog allows it; groups, quantifiers and negations may
be nested up to the limit. -/
def parse (text : String) (catalog : Catalog) (limit : Int) :
    Except ConditionError Condition :=
  if Text.allBlank text then .error .blank
  else match Expr.parse text limit with
    | .error error => .error (.unreadable error)
    | .ok expr =>
      match expr.check catalog with
      | [] => .ok (ofExpr catalog expr)
      | findings => .error (.invalid findings)

/-- The canonical text of the condition that JSON-Logic is, when the catalog allows it. -/
def textOfLogic (logic : Json) (catalog : Catalog) : Except WritingError String :=
  match Expr.ofLogic catalog [] logic with
  | .error error => .error (.malformed error)
  | .ok expr =>
    match expr.check catalog with
    | [] =>
      match expr.unwritable? with
      | none => .ok expr.text
      | some number => .error (.unwritable number)
    | findings => .error (.invalid findings)

/-- The canonical text of the condition that JSON-Logic is, when the catalog allows it and there is
room for how deep it is nested. -/
def write (logic : Json) (catalog : Catalog) (room : Nat := Logic.maxHeight) :
    Except WritingError String :=
  if room < logic.height then .error .tooDeep else textOfLogic logic catalog

/-- A condition as data. -/
def toJson (c : Condition) : Json :=
  .object [
    ("ok", .bool true),
    ("jsonLogic", c.logic),
    ("canonical", .string c.canonical),
    ("variables", .array (c.dependencies.map fun d => .string d.path)),
    ("warnings", .array (c.warnings.map WarningCode.toJson))]

end Condition

/-- A number that has no numeral, told to authors. -/
def unwritableMessage (number : Double) : String :=
  s!"Cannot render non-finite number {number.text}."

/-- What authors are told about a text that is not a condition. -/
def ConditionError.diagnostics (text : String) : ConditionError → List Diagnostic
  | .blank => [.spanning .emptyExpression "Expression is empty." (.ofText text) 0 0]
  | .unreadable error =>
    [.spanning .syntaxError error.message (.ofText text) error.offset (error.offset + 1)]
  | .invalid findings => findings.map (Located.diagnostic (.ofText text))

/-- What authors are told about JSON-Logic that cannot be written. There is no text to point at. -/
def WritingError.diagnostics : WritingError → List Diagnostic
  | .tooDeep => [logicError "JSON-Logic expression is nested too deeply."]
  | .malformed error => [logicError error.message]
  | .invalid findings => findings.map (Located.diagnostic (.ofText ""))
  | .unwritable number => [logicError (unwritableMessage number)]
where
  /-- An error of the JSON-Logic as a whole. -/
  logicError (message : String) : Diagnostic :=
    .spanning .invalidJsonLogic message (.ofText "") 0 0

end Criteria
