import Criteria.Expr.Basic
import Criteria.Text.Blank

/-!
# The shape of JSON-Logic

What reading and evaluating JSON-Logic have in common: which path a variable operand holds, which
alias a quantifier gives its elements, and how deep an expression may be nested.
-/

namespace Criteria.Logic

/-- How many arrays and objects there may be around a value, unless said otherwise. How much room
there really is depends on where the program runs, and nothing is proved of this number. -/
def maxHeight : Nat := 1000

/-- The path that the operand of a variable holds: a string, or a list that starts with one. -/
def variablePath? : Json → Option String
  | .string path => some path
  | .array (.string path :: _) => some path
  | _ => none

/-- The path of an expression that is a variable. -/
def referencePath? : Json → Option String
  | .object [(key, operand)] => if key = "var" then variablePath? operand else none
  | _ => none

/-- The alias that the operands after the predicate give: a text that is not blank. -/
def givenAlias? : List Json → Option String
  | [.string name] => if Text.allBlank name then none else some name
  | _ => none

/-- The alias of a quantifier whose operands after the predicate are given. -/
def aliasName (more : List Json) : String := (givenAlias? more).getD defaultAlias

end Criteria.Logic
