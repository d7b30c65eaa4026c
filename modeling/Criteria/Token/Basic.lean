import Criteria.Operator

/-!
# Tokens

The words of condition text. A `Lexeme` is what a token says; a `Token` is a lexeme at a place of
the text.
-/

namespace Criteria

/-- What a token says. -/
inductive Lexeme
  /-- A name or a dotted path. -/
  | identifier (name : String)
  /-- A number, as it is written. -/
  | number (text : String)
  /-- A string, without quotes and escapes. -/
  | string (value : String)
  /-- `true` or `false`. -/
  | bool (value : Bool)
  /-- An operator between two operands. -/
  | operator (op : BinaryOp)
  /-- Negation. -/
  | not
  /-- An opening parenthesis. -/
  | opening
  /-- A closing parenthesis. -/
  | closing
  | comma
  deriving DecidableEq, Repr

namespace Lexeme

/-- The name of the kind of a lexeme. -/
def kind : Lexeme → String
  | .identifier _ => "identifier"
  | .number _ => "number"
  | .string _ => "string"
  | .bool _ => "boolean"
  | .operator _ => "operator"
  | .not => "not"
  | .opening => "paren"
  | .closing => "paren"
  | .comma => "comma"

/-- The text of a lexeme; of a string, what it stands for. -/
def text : Lexeme → String
  | .identifier name => name
  | .number text => text
  | .string value => value
  | .bool b => if b then "true" else "false"
  | .operator op => op.symbol
  | .not => "!"
  | .opening => "("
  | .closing => ")"
  | .comma => ","

end Lexeme

/-- A lexeme at the characters from `start` up to, and without, `stop`. -/
structure Token where
  lexeme : Lexeme
  start : Nat
  stop : Nat
  deriving DecidableEq, Repr

end Criteria
