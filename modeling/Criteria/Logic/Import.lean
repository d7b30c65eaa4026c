import Criteria.Catalog.Basic
import Criteria.Logic.Basic
import Criteria.Path

/-!
# JSON-Logic as conditions

`Expr.ofLogic` reads a condition back from its persisted form. Lists of operands become chains that
associate to the left. Inside a quantifier a path that is neither in the catalog nor relative to an
alias around it is taken to be relative to the innermost alias: some producers leave it out.
-/

namespace Criteria

/-- Why JSON-Logic is not a condition. -/
inductive LogicError
  /-- An array stands where a condition should. -/
  | bareArray
  /-- An object does not have exactly one key. -/
  | notOneKey
  /-- A connective has no operands. -/
  | noOperands (connective : Connective)
  /-- The path of a variable is not a string. -/
  | badPath
  /-- A comparison does not have two operands. -/
  | comparisonOperands (comparison : Comparison)
  /-- A quantifier does not have two or three operands. -/
  | quantifierOperands (quantifier : Quantifier)
  /-- The key is no operation. -/
  | unsupported (key : String)
  deriving DecidableEq, Repr

/-- The wording of a fault. -/
def LogicError.message : LogicError → String
  | .bareArray => "Unexpected array at root level in JSON-Logic expression."
  | .notOneKey => "JSON-Logic object must have exactly one operator."
  | .noOperands c => s!"Operator `{c.key}` expects a non-empty array."
  | .badPath => "`var` operator expects a string path."
  | .comparisonOperands c => s!"Operator `{c.symbol}` expects exactly two operands."
  | .quantifierOperands q =>
    s!"Operator `{q.symbol}` expects [collection, predicate, alias?] operands."
  | .unsupported key => s!"Operator `{key}` is not supported by the DSL renderer."

namespace Logic

/-- The path by which a condition refers to a variable read inside quantifiers with the given
aliases, innermost first. -/
def resolvePath (catalog : Catalog) (aliases : List String) (path : String) : String :=
  if catalog.contains path then path
  else if aliases.any (Path.isRelativeTo · path) then path
  else match aliases with
    | [] => path
    | innermost :: _ => if path = "" then innermost else innermost ++ "." ++ path

end Logic

namespace Expr

/-- Operands joined by a connective, the leftmost first. -/
def joinAll (c : Connective) (first : Expr) (rest : List Expr) : Expr :=
  rest.foldl (fun left right => .binary (.logical c) left right none none) first

mutual

/-- The condition that a value of JSON-Logic is, inside quantifiers with the given aliases,
innermost first. -/
def ofLogic (catalog : Catalog) (aliases : List String) : Json → Except LogicError Expr
  | .scalar value => .ok (.literal value none)
  | .array _ => .error .bareArray
  | .object [(key, operand)] =>
    match Operation.ofKey? key with
    | none => .error (.unsupported key)
    | some (.logical c) =>
      match operand with
      | .array (first :: rest) => do
        return joinAll c (← ofLogic catalog aliases first) (← ofLogicList catalog aliases rest)
      | _ => .error (.noOperands c)
    | some .not => do return .not (← ofLogic catalog aliases operand) none none
    | some .variable =>
      match Logic.variablePath? operand with
      | some path => .ok (.reference (Logic.resolvePath catalog aliases path) none)
      | none => .error .badPath
    | some (.compare c) =>
      match operand with
      | .array [left, right] => do
        return .binary (.compare c) (← ofLogic catalog aliases left)
          (← ofLogic catalog aliases right) none none
      | _ => .error (.comparisonOperands c)
    | some (.quantify q) =>
      match operand with
      | .array [collection, predicate] => do
        return .quantified q (← ofLogic catalog aliases collection)
          (← ofLogic catalog (defaultAlias :: aliases) predicate) ⟨defaultAlias, false⟩ {}
      | .array [collection, predicate, third] => do
        let name := Logic.aliasName [third]
        return .quantified q (← ofLogic catalog aliases collection)
          (← ofLogic catalog (name :: aliases) predicate) ⟨name, name != defaultAlias⟩ {}
      | _ => .error (.quantifierOperands q)
  | .object _ => .error .notOneKey

/-- The conditions that some operands are. -/
def ofLogicList (catalog : Catalog) (aliases : List String) :
    List Json → Except LogicError (List Expr)
  | [] => .ok []
  | first :: rest => do
    return (← ofLogic catalog aliases first) :: (← ofLogicList catalog aliases rest)

end

end Expr

end Criteria
