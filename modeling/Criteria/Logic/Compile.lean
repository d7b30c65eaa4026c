import Criteria.Expr.Basic

/-!
# Conditions as JSON-Logic

`Expr.toLogic` is the persisted form of a condition: an object with the operator as its only key.
Nested conjunctions are flattened into one list of operands, and nested disjunctions likewise. A
quantifier carries its alias where it was written out or differs from the default.
-/

namespace Criteria

/-- The operands that a compiled operand contributes to a connective: its own operands when it is
an expression of the same connective, and itself otherwise. -/
def Connective.operands (c : Connective) : Json → List Json
  | .object [(key, .array items)] =>
    if key = c.key then items else [.object [(key, .array items)]]
  | value => [value]

/-- An operand of the same connective contributes its operands. -/
theorem Connective.operands_self (c : Connective) (items : List Json) :
    c.operands (.object [(c.key, .array items)]) = items := by
  rw [operands, if_pos rfl]

/-- An operand contributes itself, or its own operands. -/
theorem Connective.operands_cases (c : Connective) (value : Json) :
    c.operands value = [value] ∨ value = .object [(c.key, .array (c.operands value))] := by
  unfold operands
  split
  · rename_i key items
    split
    · rename_i hkey
      exact .inr (by rw [hkey])
    · exact .inl rfl
  · exact .inl rfl

/-- The JSON-Logic form of a condition. -/
def Expr.toLogic : Expr → Json
  | .literal value _ => .scalar value
  | .reference path _ => .object [("var", .string path)]
  | .not argument _ _ => .object [("!", argument.toLogic)]
  | .binary (.logical c) left right _ _ =>
    .object [(c.key, .array (c.operands left.toLogic ++ c.operands right.toLogic))]
  | .binary (.compare c) left right _ _ =>
    .object [(c.symbol, .array [left.toLogic, right.toLogic])]
  | .quantified q collection predicate binder _ =>
    let name := if binder.written || binder.name != defaultAlias then [.string binder.name] else []
    .object [(q.symbol, .array (collection.toLogic :: predicate.toLogic :: name))]

end Criteria
