import Criteria.Json.Basic
import Criteria.Operator
import Criteria.Text.Span

/-!
# Condition expressions

The syntax tree of a condition. Nodes read from text know the spans they were read from; nodes made
from JSON-Logic have none.

* `Expr.nodes`: every node of a tree, parents before children, left to right;
* `Expr.references`: the variable occurrences among them;
* `Expr.erase`: the tree without its spans.
-/

namespace Criteria

/-- The name that a quantifier gives to the elements of its collection. -/
structure Alias where
  name : String
  /-- The alias was written out. -/
  written : Bool
  deriving DecidableEq, Repr

/-- The name of the elements where none is written. -/
def defaultAlias : String := "item"

/-- Where the parts of a quantifier stand. -/
structure QuantifierSpans where
  whole : Option Span := none
  operator : Option Span := none
  collection : Option Span := none
  binder : Option Span := none
  predicate : Option Span := none
  deriving DecidableEq, Repr

/-- A condition. -/
inductive Expr
  /-- A value written out. -/
  | literal (value : Scalar) (span : Option Span)
  /-- An occurrence of a variable. -/
  | reference (path : String) (span : Option Span)
  /-- Negation. -/
  | not (argument : Expr) (span operatorSpan : Option Span)
  /-- Two operands joined by an operator. -/
  | binary (op : BinaryOp) (left right : Expr) (span operatorSpan : Option Span)
  /-- A condition on the elements of a collection. -/
  | quantified (quantifier : Quantifier) (collection predicate : Expr) (binder : Alias)
      (spans : QuantifierSpans)
  deriving DecidableEq

namespace Expr

instance : Inhabited Expr := ⟨.literal .null none⟩

/-- The characters that a node was read from. -/
def span : Expr → Option Span
  | .literal _ span => span
  | .reference _ span => span
  | .not _ span _ => span
  | .binary _ _ _ span _ => span
  | .quantified _ _ _ _ spans => spans.whole

/-- The node read from the given characters instead. -/
def withSpan (span : Option Span) : Expr → Expr
  | .literal value _ => .literal value span
  | .reference path _ => .reference path span
  | .not argument _ operatorSpan => .not argument span operatorSpan
  | .binary op left right _ operatorSpan => .binary op left right span operatorSpan
  | .quantified q collection predicate binder spans =>
    .quantified q collection predicate binder { spans with whole := span }

/-- The name of the kind of a node. -/
def kind : Expr → String
  | .literal .. => "literal"
  | .reference .. => "variable"
  | .not .. => "unary"
  | .binary .. => "binary"
  | .quantified .. => "quantifier"

/-- A node and all nodes below it, parents before children, left to right. -/
def nodes : Expr → List Expr
  | e@(.literal ..) => [e]
  | e@(.reference ..) => [e]
  | e@(.not argument _ _) => e :: argument.nodes
  | e@(.binary _ left right _ _) => e :: (left.nodes ++ right.nodes)
  | e@(.quantified _ collection predicate _ _) => e :: (collection.nodes ++ predicate.nodes)

/-- The variable occurrences at and below a node, left to right, with their spans. -/
def references : Expr → List (String × Option Span)
  | .literal .. => []
  | .reference path span => [(path, span)]
  | .not argument _ _ => argument.references
  | .binary _ left right _ _ => left.references ++ right.references
  | .quantified _ collection predicate _ _ => collection.references ++ predicate.references

/-- The tree without spans. -/
def erase : Expr → Expr
  | .literal value _ => .literal value none
  | .reference path _ => .reference path none
  | .not argument _ _ => .not argument.erase none none
  | .binary op left right _ _ => .binary op left.erase right.erase none none
  | .quantified q collection predicate binder _ =>
    .quantified q collection.erase predicate.erase binder {}

end Expr

end Criteria
