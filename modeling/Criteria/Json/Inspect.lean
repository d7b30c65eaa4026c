import Criteria.Json.Basic
import Criteria.Number.Shortest
import Criteria.Text.Printable

/-!
# Values in messages

`Json.inspect` is the text of a value in a message about it: `None`, `True` and `False`, numbers,
strings in quotes, `[a, b]` for arrays and names with values in braces for objects. A string stands
in single quotes, or in double quotes when it holds single quotes and no double ones.
-/

namespace Criteria.Json

/-- A number in hexadecimal with at least the given number of digits. -/
def hexText (width n : Nat) : List Char :=
  let run := Nat.toDigits 16 n
  List.replicate (width - run.length) '0' ++ run

/-- A character of a string as it is shown between the given quotes. -/
def inspectChar (quote : Char) (c : Char) : List Char :=
  if c = quote ∨ c = '\\' then ['\\', c]
  else if c = '\n' then ['\\', 'n']
  else if c = '\r' then ['\\', 'r']
  else if c = '\t' then ['\\', 't']
  else if Text.isPrintable c then [c]
  else if c.toNat ≤ 0xff then '\\' :: 'x' :: hexText 2 c.toNat
  else if c.toNat ≤ 0xffff then '\\' :: 'u' :: hexText 4 c.toNat
  else '\\' :: 'U' :: hexText 8 c.toNat

/-- A string in quotes. -/
def inspectString (s : String) : String :=
  let cs := s.toList
  let quote := if cs.contains '\'' && !cs.contains '"' then '"' else '\''
  String.ofList (quote :: (cs.flatMap (inspectChar quote) ++ [quote]))

/-- A value without parts. -/
def inspectScalar : Scalar → String
  | .null => "None"
  | .bool b => if b then "True" else "False"
  | .int n => toString n
  | .double d => d.text
  | .string s => inspectString s

mutual

/-- The text of a value in a message about it. -/
def inspect : Json → String
  | .scalar value => inspectScalar value
  | .array items => "[" ++ ", ".intercalate (inspectItems items) ++ "]"
  | .object fields => "\x7b" ++ ", ".intercalate (inspectFields fields) ++ "\x7d"

/-- The texts of some items. -/
def inspectItems : List Json → List String
  | [] => []
  | item :: rest => inspect item :: inspectItems rest

/-- The texts of some entries. -/
def inspectFields : List (String × Json) → List String
  | [] => []
  | (name, value) :: rest =>
    (inspectString name ++ ": " ++ inspect value) :: inspectFields rest

end

end Criteria.Json
