import Criteria.Json.Basic
import Criteria.Number.Shortest

/-!
# Printing JSON text

Two layouts: on one line (`Json.compact`), and with one value a line, indented by two spaces a level
(`Json.pretty`). Characters are written as they are, except quotes, backslashes and controls.
Numbers are written so that they read back: integers in full, doubles by their shortest decimal.
-/

namespace Criteria.Json

/-- The digits of a number below sixteen. -/
def hexDigit (n : Nat) : Char := (Nat.digitChar n)

/-- A character of a string as it is printed between quotes. -/
def printChar (c : Char) : List Char :=
  match c with
  | '"' => ['\\', '"']
  | '\\' => ['\\', '\\']
  | '\x08' => ['\\', 'b']
  | '\x0c' => ['\\', 'f']
  | '\n' => ['\\', 'n']
  | '\r' => ['\\', 'r']
  | '\t' => ['\\', 't']
  | c =>
    if c.toNat ≤ 0x1f then
      ['\\', 'u', '0', '0', hexDigit (c.toNat / 16), hexDigit (c.toNat % 16)]
    else [c]

/-- A string with its quotes. -/
def printString (s : String) : String :=
  String.ofList ('"' :: (s.toList.flatMap printChar ++ ['"']))

/-- A value without parts. -/
def printScalar : Scalar → String
  | .null => "null"
  | .bool b => if b then "true" else "false"
  | .int n => toString n
  | .double d => d.textWith "NaN" "Infinity"
  | .string s => printString s

/-- How the parts of a value are laid out. -/
structure Layout where
  /-- What stands between a name and its value. -/
  colon : String
  /-- What starts a new part at a depth. -/
  newline : Nat → String

mutual

/-- The text of a value whose parts stand at the given depth. -/
def print (layout : Layout) (depth : Nat) : Json → String
  | .scalar value => printScalar value
  | .array [] => "[]"
  | .array (item :: rest) =>
    "[" ++ layout.newline depth ++ print layout (depth + 1) item ++
      printItems layout depth rest ++ layout.newline (depth - 1) ++ "]"
  | .object [] => "\x7b\x7d"
  | .object ((name, value) :: rest) =>
    "\x7b" ++ layout.newline depth ++ printString name ++ layout.colon ++
      print layout (depth + 1) value ++ printFields layout depth rest ++
      layout.newline (depth - 1) ++ "\x7d"

/-- The items after the first. -/
def printItems (layout : Layout) (depth : Nat) : List Json → String
  | [] => ""
  | item :: rest =>
    "," ++ layout.newline depth ++ print layout (depth + 1) item ++ printItems layout depth rest

/-- The entries after the first. -/
def printFields (layout : Layout) (depth : Nat) : List (String × Json) → String
  | [] => ""
  | (name, value) :: rest =>
    "," ++ layout.newline depth ++ printString name ++ layout.colon ++
      print layout (depth + 1) value ++ printFields layout depth rest

end

/-- The text of a value on one line. -/
def compact (value : Json) : String := print ⟨":", fun _ => ""⟩ 1 value

/-- The text of a value with one part a line, indented by two spaces a level. -/
def pretty (value : Json) : String :=
  print ⟨": ", fun depth => "\n" ++ String.ofList (List.replicate (2 * depth) ' ')⟩ 1 value

end Criteria.Json
