import Criteria.Text.Blank
import Criteria.Token.Basic

/-!
# Reading tokens

`tokenize` splits condition text into tokens, which blanks may separate. `lexeme?` is the longest
lexeme at the front of a text, with its length; `scan` applies it wherever the text is neither
blank nor inside the token before. A character that starts no lexeme ends the reading with a
`LexError`, beside the tokens read so far.
-/

namespace Criteria

/-- Why no lexeme starts at a character. -/
inductive LexFault
  /-- A string is opened and never closed. -/
  | unterminated
  /-- No lexeme starts with the character. -/
  | unexpected (c : Char)
  deriving DecidableEq, Repr

/-- A fault of the text at an offset. -/
structure LexError where
  fault : LexFault
  offset : Nat
  deriving DecidableEq, Repr

/-- The wording of a fault. -/
def LexFault.message : LexFault → String
  | .unterminated => "Unterminated string literal."
  | .unexpected c => s!"Unexpected character `{c}`."

namespace Lexeme

/-- How many characters a string takes up to and with its closing quote. A backslash and the
character after it belong together. -/
def closing? (quote : Char) : List Char → Option Nat
  | [] => none
  | '\\' :: _ :: rest => (closing? quote rest).map (· + 2)
  | c :: rest =>
    if c = quote then some 1
    else if c = '\\' then none
    else (closing? quote rest).map (· + 1)

/-- The character that a backslash and a letter stand for. -/
def escapeValue? : Char → Option Char
  | '\'' => some '\''
  | '"' => some '"'
  | '\\' => some '\\'
  | 'b' => some '\x08'
  | 'f' => some '\x0c'
  | 'n' => some '\n'
  | 'r' => some '\r'
  | 't' => some '\t'
  | _ => none

/-- A string with its escapes replaced; a backslash that starts no escape stands for itself. -/
def unescape : List Char → List Char
  | [] => []
  | '\\' :: c :: rest =>
    match escapeValue? c with
    | some value => value :: unescape rest
    | none => '\\' :: c :: unescape rest
  | c :: rest => c :: unescape rest

/-- A string whose opening quote stands before the given text. -/
def string? (quote : Char) (rest : List Char) : Option (Lexeme × Nat) := do
  let length ← closing? quote rest
  return (.string (String.ofList (unescape (rest.take (length - 1)))), length + 1)

/-- A number: digits, a point and digits, or a point and digits. A point without digits after it
does not belong to the number. -/
def numberLength (cs : List Char) : Nat :=
  let whole := (cs.takeWhile Char.isDigit).length
  match cs.drop whole with
  | '.' :: rest =>
    let places := (rest.takeWhile Char.isDigit).length
    if places = 0 then whole else whole + 1 + places
  | _ => whole

/-- The character starts a name. -/
def isNameStart (c : Char) : Bool := c.isAlpha || c = '_'

/-- The character continues a name or a path. -/
def isNameChar (c : Char) : Bool := c.isAlphanum || c = '_' || c = '.'

/-- The lexeme that a run of name characters is. -/
def ofName (run : List Char) : Lexeme :=
  if run = ['t', 'r', 'u', 'e'] then .bool true
  else if run = ['f', 'a', 'l', 's', 'e'] then .bool false
  else .identifier (String.ofList run)

end Lexeme

open Lexeme in
/-- The lexeme at the front of a text, and how many characters it takes. -/
def lexeme? (cs : List Char) : Option (Lexeme × Nat) :=
  match cs with
  | '(' :: _ => some (.opening, 1)
  | ')' :: _ => some (.closing, 1)
  | ',' :: _ => some (.comma, 1)
  | '&' :: '&' :: _ => some (.operator (.logical .and), 2)
  | '|' :: '|' :: _ => some (.operator (.logical .or), 2)
  | '=' :: '=' :: _ => some (.operator (.compare .eq), 2)
  | '!' :: '=' :: _ => some (.operator (.compare .ne), 2)
  | '>' :: '=' :: _ => some (.operator (.compare .ge), 2)
  | '<' :: '=' :: _ => some (.operator (.compare .le), 2)
  | '<' :: _ => some (.operator (.compare .lt), 1)
  | '>' :: _ => some (.operator (.compare .gt), 1)
  | '!' :: _ => some (.not, 1)
  | '"' :: rest => string? '"' rest
  | '\'' :: rest => string? '\'' rest
  | c :: _ =>
    if isNameStart c then
      let run := cs.takeWhile isNameChar
      some (ofName run, run.length)
    else
      let length := numberLength cs
      if length = 0 then none else some (.number (String.ofList (cs.take length)), length)
  | [] => none

/-- The tokens of a text whose first character stands at `offset`, up to the first fault. The first
`inside` characters belong to a token that was read before. -/
def scan (inside offset : Nat) : List Char → List Token × Option LexError
  | [] => ([], none)
  | c :: rest =>
    if inside ≠ 0 then scan (inside - 1) (offset + 1) rest
    else if Text.isBlank c then scan 0 (offset + 1) rest
    else match lexeme? (c :: rest) with
      | some (lexeme, length) =>
        let (tokens, fault) := scan (length - 1) (offset + 1) rest
        (⟨lexeme, offset, offset + length⟩ :: tokens, fault)
      | none =>
        ([], some ⟨if c = '"' ∨ c = '\'' then .unterminated else .unexpected c, offset⟩)

/-- The tokens of a text. -/
def tokenizeList (cs : List Char) : Except LexError (List Token) :=
  match scan 0 0 cs with
  | (tokens, none) => .ok tokens
  | (_, some error) => .error error

/-- The tokens of a text. -/
def tokenize (text : String) : Except LexError (List Token) := tokenizeList text.toList

end Criteria
