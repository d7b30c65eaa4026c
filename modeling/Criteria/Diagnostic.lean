import Criteria.Catalog.Definition
import Criteria.Text.LineIndex
import Criteria.Text.Span

/-!
# Diagnostics

What authors of conditions are told: a machine-readable code, a message, and the piece of the text
that it is about. A diagnostic about a node that was read from no text names the kind of the node
instead.
-/

namespace Criteria

/-- The codes of errors. -/
inductive ErrorCode
  | emptyExpression
  | syntaxError
  | unknownVariable
  | operatorNotAllowed
  | typeMismatch
  | invalidQuantifier
  | invalidJsonLogic
  deriving DecidableEq, Repr

namespace ErrorCode

/-- The name of a code. -/
def name : ErrorCode → String
  | .emptyExpression => "empty_expression"
  | .syntaxError => "syntax_error"
  | .unknownVariable => "unknown_variable"
  | .operatorNotAllowed => "operator_not_allowed"
  | .typeMismatch => "type_mismatch"
  | .invalidQuantifier => "invalid_quantifier"
  | .invalidJsonLogic => "invalid_json_logic"

/-- Every code. -/
def all : List ErrorCode :=
  [.emptyExpression, .syntaxError, .unknownVariable, .operatorNotAllowed, .typeMismatch,
    .invalidQuantifier, .invalidJsonLogic]

/-- The code that a value names. -/
def ofJson (value : Json) : Except UnknownName ErrorCode :=
  match value.asString?.bind fun s => all.find? (·.name = s) with
  | some code => .ok code
  | none => .error ⟨value, "ErrorCode"⟩

end ErrorCode

/-- A piece of a text, between two of its points. -/
structure Extent where
  start : Position
  stop : Position
  deriving DecidableEq, Repr

/-- What authors are told about an error. -/
structure Diagnostic where
  code : ErrorCode
  message : String
  extent : Option Extent
  /-- The kind of the node it is about, when there is no text. -/
  nodeKind : Option String := none
  deriving DecidableEq, Repr

namespace Diagnostic

/-- A diagnostic about the characters from `start` up to `stop`. The end is placed no earlier than
the start, though its offset is kept as given. -/
def spanning (code : ErrorCode) (message : String) (index : LineIndex) (start stop : Int) :
    Diagnostic :=
  { code, message,
    extent := some ⟨index.position start, { index.position (max start stop) with offset := stop }⟩ }

/-- The diagnostic on one line. -/
def text (d : Diagnostic) : String :=
  match d.extent with
  | some extent => s!"[{d.code.name}] {extent.start.line}:{extent.start.column}: {d.message}"
  | none =>
    match d.nodeKind with
    | some kind =>
      if kind.isEmpty then s!"[{d.code.name}] {d.message}"
      else s!"[{d.code.name}] {kind}: {d.message}"
    | none => s!"[{d.code.name}] {d.message}"

/-- A point of a text as data. -/
def positionJson (p : Position) : Json :=
  .object [("offset", .int p.offset), ("line", .int p.line), ("column", .int p.column)]

/-- The diagnostic as data. -/
def toJson (d : Diagnostic) : Json :=
  .object [
    ("code", .string d.code.name),
    ("message", .string d.message),
    ("range", match d.extent with
      | some extent =>
        .object [("start", positionJson extent.start), ("end", positionJson extent.stop)]
      | none => .null)]

end Diagnostic

/-- The codes of warnings. -/
inductive WarningCode
  /-- The condition holds whatever the data. -/
  | noopTrue
  deriving DecidableEq, Repr

namespace WarningCode

/-- The name of a code. -/
def name : WarningCode → String
  | .noopTrue => "noop_true"

/-- The message that goes with a code. -/
def message : WarningCode → String
  | .noopTrue => "Expression always resolves to true."

/-- A warning on one line. -/
def text (w : WarningCode) : String := s!"[{w.name}] {w.message}"

/-- A warning as data. -/
def toJson (w : WarningCode) : Json :=
  .object [("code", .string w.name), ("message", .string w.message), ("range", .null)]

end WarningCode

end Criteria
