import Criteria.Expr.Basic
import Criteria.Number.Shortest

/-!
# Canonical text

`Expr.text` writes a condition with single spaces around operators and with parentheses only where
an operand would otherwise be read as part of something else. Every condition has a text except one
with an infinite or undefined number in it, which `Expr.unwritable?` finds.
-/

namespace Criteria

namespace Scalar

/-- A character of a string as it is written between double quotes. -/
def writeChar : Char → List Char
  | '"' => ['\\', '"']
  | '\\' => ['\\', '\\']
  | '\x08' => ['\\', 'b']
  | '\x0c' => ['\\', 'f']
  | '\n' => ['\\', 'n']
  | '\r' => ['\\', 'r']
  | '\t' => ['\\', 't']
  | c => [c]

/-- A value as it is written in a condition. -/
def text : Scalar → String
  | .null => "null"
  | .bool b => if b then "true" else "false"
  | .int n => toString n
  | .double d => (d.plain?).getD d.text
  | .string s => String.ofList ('"' :: (s.toList.flatMap writeChar ++ ['"']))

/-- The number that keeps a value from being written. -/
def unwritable? : Scalar → Option Double
  | .double d => if d.isFinite then none else some d
  | _ => none

end Scalar

namespace Expr

/-- How tightly an operator binds its operands. -/
def binding : BinaryOp → Nat
  | .logical .or => 1
  | .logical .and => 2
  | .compare _ => 3

/-- An operand needs parentheses under an operator: it binds looser, or as tightly without
continuing a chain of the same `&&` or `||`. -/
def needsGroup (parent : BinaryOp) : Expr → Bool
  | .binary op _ _ _ _ =>
    decide (binding op < binding parent) ||
      (binding op == binding parent && !(op == parent && parent matches .logical _))
  | _ => false

/-- The argument of a negation needs parentheses. -/
def needsGroupUnderNot : Expr → Bool
  | .binary .. => true
  | _ => false

/-- A text, in parentheses if asked. -/
def grouped (group : Bool) (text : String) : String := if group then "(" ++ text ++ ")" else text

/-- The canonical text of a condition. -/
def text : Expr → String
  | .literal value _ => value.text
  | .reference path _ => path
  | .not argument _ _ => "!" ++ grouped (needsGroupUnderNot argument) argument.text
  | .binary op left right _ _ =>
    grouped (needsGroup op left) left.text ++ " " ++ op.symbol ++ " " ++
      grouped (needsGroup op right) right.text
  | .quantified q collection predicate binder _ =>
    q.symbol ++ "(" ++ collection.text ++ (if binder.written then " as " ++ binder.name else "") ++
      ", " ++ predicate.text ++ ")"

/-- The first number, in the order of the text, that keeps a condition from being written. -/
def unwritable? : Expr → Option Double
  | .literal value _ => value.unwritable?
  | .reference .. => none
  | .not argument _ _ => argument.unwritable?
  | .binary _ left right _ _ => left.unwritable?.or right.unwritable?
  | .quantified _ collection predicate _ _ => collection.unwritable?.or predicate.unwritable?

end Expr

end Criteria
