/-!
# Operators

The operators of the condition language, with their two spellings: the symbol in condition text
and the key in JSON-Logic. Comparisons are spelled alike in both.
-/

namespace Criteria

/-- Comparison of two values. -/
inductive Comparison
  | eq | ne | lt | le | gt | ge
  deriving DecidableEq, Repr

namespace Comparison

/-- Every comparison, equalities first. -/
def all : List Comparison := [.eq, .ne, .lt, .le, .gt, .ge]

/-- The spelling of a comparison. -/
def symbol : Comparison → String
  | .eq => "=="
  | .ne => "!="
  | .lt => "<"
  | .le => "<="
  | .gt => ">"
  | .ge => ">="

/-- The comparison with a given spelling. -/
def ofSymbol? (s : String) : Option Comparison := all.find? (·.symbol = s)

end Comparison

/-- Connection of two conditions. -/
inductive Connective
  | and | or
  deriving DecidableEq, Repr

namespace Connective

/-- The spelling in condition text. -/
def symbol : Connective → String
  | .and => "&&"
  | .or => "||"

/-- The key in JSON-Logic. -/
def key : Connective → String
  | .and => "and"
  | .or => "or"

end Connective

/-- An operator between two operands. -/
inductive BinaryOp
  | logical (connective : Connective)
  | compare (comparison : Comparison)
  deriving DecidableEq, Repr

namespace BinaryOp

/-- The spelling in condition text. -/
def symbol : BinaryOp → String
  | .logical c => c.symbol
  | .compare c => c.symbol

/-- The operator with a given spelling. -/
def ofSymbol? (s : String) : Option BinaryOp :=
  if s = "&&" then some (.logical .and)
  else if s = "||" then some (.logical .or)
  else (Comparison.ofSymbol? s).map .compare

end BinaryOp

/-- Repetition of a condition over the elements of an array. -/
inductive Quantifier
  /-- The condition holds of some element. -/
  | any
  /-- The condition holds of every element. -/
  | all
  deriving DecidableEq, Repr

namespace Quantifier

/-- The spelling of a quantifier. -/
def symbol : Quantifier → String
  | .any => "some"
  | .all => "all"

/-- The quantifier with a given spelling. -/
def ofSymbol? (s : String) : Option Quantifier :=
  if s = "some" then some .any else if s = "all" then some .all else none

end Quantifier

/-- What a key of JSON-Logic asks for. -/
inductive Operation
  | logical (connective : Connective)
  | not
  | variable
  | compare (comparison : Comparison)
  | quantify (quantifier : Quantifier)
  deriving DecidableEq, Repr

/-- The operation that a key asks for. -/
def Operation.ofKey? (key : String) : Option Operation :=
  if key = "and" then some (.logical .and)
  else if key = "or" then some (.logical .or)
  else if key = "!" then some .not
  else if key = "var" then some .variable
  else match Quantifier.ofSymbol? key with
    | some q => some (.quantify q)
    | none => (Comparison.ofSymbol? key).map .compare

end Criteria
