import Criteria.Json.Basic
import Criteria.Number.Hexadecimal
import Criteria.Number.Limit
import Criteria.Text.LineIndex

/-!
# Reading JSON text

`Json.read` accepts JSON together with the numbers `NaN`, `Infinity` and `-Infinity`; of a repeated
name the last value counts. A refusal is a `ReadError`: what was expected, and the offset of the
character where it was missing.
-/

namespace Criteria.Json

/-- Why a text is not JSON. -/
inductive ReadFault
  /-- A value should start here. -/
  | value
  /-- A name of an object entry should start here. -/
  | name
  /-- A colon should follow the name. -/
  | colon
  /-- A comma or the closing bracket should follow the value. -/
  | comma
  /-- Text follows the value. -/
  | extra
  /-- The string that starts here is not closed. -/
  | unterminated
  /-- A control character stands in a string. -/
  | control
  /-- The letter after a backslash is not an escape. -/
  | escape
  /-- The mark `u` is not followed by four hexadecimal digits. -/
  | codePoint
  /-- The text starts with a byte-order mark. -/
  | byteOrderMark
  /-- The integer has more digits than are read. -/
  | digits (count : Nat)
  deriving DecidableEq, Repr

/-- What is wrong with a text, and where. -/
structure ReadError where
  fault : ReadFault
  offset : Nat
  deriving DecidableEq, Repr

/-- The wording of a fault. -/
def ReadFault.text : ReadFault → String
  | .value => "Expecting value"
  | .name => "Expecting property name enclosed in double quotes"
  | .colon => "Expecting ':' delimiter"
  | .comma => "Expecting ',' delimiter"
  | .extra => "Extra data"
  | .unterminated => "Unterminated string starting at"
  | .control => "Invalid control character at"
  | .escape => "Invalid \\escape"
  | .codePoint => "Invalid \\uXXXX escape"
  | .byteOrderMark => "Unexpected UTF-8 BOM (decode using utf-8-sig)"
  | .digits count => s!"Integer of {count} digits"

/-- The fault with its line, column and offset in the text. -/
def ReadError.message (error : ReadError) (text : String) : String :=
  let place := (LineIndex.ofText text).position error.offset
  s!"{error.fault.text}: line {place.line} column {place.column} (char {error.offset})"

/-- The text that is still to be read, and the offset at which it starts. -/
structure Cursor where
  offset : Nat
  rest : List Char

namespace Cursor

/-- Reading fails at the cursor. -/
def fail {α : Type} (cursor : Cursor) (fault : ReadFault) : Except ReadError α :=
  .error ⟨fault, cursor.offset⟩

/-- The cursor moved on by some characters. -/
def skip (cursor : Cursor) (count : Nat) : Cursor :=
  ⟨cursor.offset + count, cursor.rest.drop count⟩

/-- The cursor moved past spaces, tabs and line ends. -/
def skipSpace (cursor : Cursor) : Cursor :=
  cursor.skip (cursor.rest.takeWhile fun c => c = ' ' ∨ c = '\t' ∨ c = '\n' ∨ c = '\r').length

end Cursor

/-- The value of four hexadecimal digits. -/
def hex4? (a b c d : Char) : Option Nat := Hexadecimal.read? [a, b, c, d]

/-- The character that a backslash and a letter stand for. -/
def escapeValue? : Char → Option Char
  | '"' => some '"'
  | '\\' => some '\\'
  | '/' => some '/'
  | 'b' => some '\x08'
  | 'f' => some '\x0c'
  | 'n' => some '\n'
  | 'r' => some '\r'
  | 't' => some '\t'
  | _ => none

/-- The character for a UTF-16 unit that has no partner: a surrogate alone has none. -/
def unitChar (unit : Nat) : Char :=
  if 0xd800 ≤ unit ∧ unit < 0xe000 then '\ufffd' else Char.ofNat unit

/-- Reads a string up to its closing quote. The string was opened at the offset `start`, `offset` is
that of the remaining text, and `done` holds the characters read, last first. -/
def readChars (start offset : Nat) (done : List Char) :
    List Char → Except ReadError (String × Cursor)
  | [] => .error ⟨.unterminated, start⟩
  | '"' :: rest => .ok (String.ofList done.reverse, ⟨offset + 1, rest⟩)
  | '\\' :: [] => .error ⟨.unterminated, start⟩
  | '\\' :: 'u' :: a :: b :: c :: d :: '\\' :: 'u' :: e :: f :: g :: h :: next :: rest =>
    match hex4? a b c d with
    | none => .error ⟨.codePoint, offset + 1⟩
    | some high =>
      if 0xd800 ≤ high ∧ high < 0xdc00 then
        match hex4? e f g h with
        | none => .error ⟨.codePoint, offset + 7⟩
        | some low =>
          if 0xdc00 ≤ low ∧ low < 0xe000 then
            let joined := 0x10000 + (high - 0xd800) * 0x400 + (low - 0xdc00)
            readChars start (offset + 12) (Char.ofNat joined :: done) (next :: rest)
          else
            readChars start (offset + 6) ('\ufffd' :: done)
              ('\\' :: 'u' :: e :: f :: g :: h :: next :: rest)
      else
        readChars start (offset + 6) (unitChar high :: done)
          ('\\' :: 'u' :: e :: f :: g :: h :: next :: rest)
  | '\\' :: 'u' :: a :: b :: c :: d :: next :: rest =>
    match hex4? a b c d with
    | none => .error ⟨.codePoint, offset + 1⟩
    | some unit => readChars start (offset + 6) (unitChar unit :: done) (next :: rest)
  | '\\' :: 'u' :: _ => .error ⟨.codePoint, offset + 1⟩
  | '\\' :: c :: rest =>
    match escapeValue? c with
    | none => .error ⟨.escape, offset⟩
    | some value => readChars start (offset + 2) (value :: done) rest
  | c :: rest =>
    if c.toNat ≤ 0x1f then .error ⟨.control, offset⟩
    else readChars start (offset + 1) (c :: done) rest

/-- Reads a number: an integer unless it has a fraction or an exponent. -/
def readNumber (cursor : Cursor) : Except ReadError (Json × Cursor) :=
  let (negative, unsigned) := match cursor.rest with
    | '-' :: rest => (true, rest)
    | cs => (false, cs)
  let (run, afterRun) := Decimal.splitDigits unsigned
  -- A leading zero stands alone.
  let whole := if run.head? = some '0' then ['0'] else run
  let afterWhole := if run.head? = some '0' then unsigned.drop 1 else afterRun
  if whole.isEmpty then cursor.fail .value
  else
    let (fraction, afterFraction) := match afterWhole with
      | '.' :: tail =>
        match Decimal.splitDigits tail with
        | ([], _) => ([], afterWhole)
        | (digits, rest) => (digits, rest)
      | _ => ([], afterWhole)
    let (exponent, rest) := Decimal.splitExponent afterFraction
    let next : Cursor := ⟨cursor.offset + (cursor.rest.length - rest.length), rest⟩
    if fraction.isEmpty ∧ exponent.isNone then
      if maxIntDigits < whole.length then cursor.fail (.digits whole.length)
      else
        let size := Nat.ofDigitChars 10 whole 0
        .ok (.int (if negative then -(size : Int) else size), next)
    else
      let size := Decimal.ofParts whole fraction (exponent.getD 0)
      .ok (.double (Double.ofDecimal negative size), next)

/-- The words that are values. -/
def wordValues : List (List Char × Json) :=
  [("null".toList, .null), ("true".toList, .bool true), ("false".toList, .bool false),
    ("NaN".toList, .double .nan), ("Infinity".toList, .double (.infinite false)),
    ("-Infinity".toList, .double (.infinite true))]

/-- Reads a value without parts that is not a string. -/
def readWord (cursor : Cursor) : Except ReadError (Json × Cursor) :=
  match wordValues.find? fun entry => entry.1.isPrefixOf cursor.rest with
  | some (word, value) => .ok (value, cursor.skip word.length)
  | none => readNumber cursor

mutual

/-- Reads the value at the cursor. The first argument bounds the nesting of calls: a bracket costs two
of it, a comma one. -/
def readValue : Nat → Cursor → Except ReadError (Json × Cursor)
  | 0, cursor => cursor.fail .value
  | fuel + 1, cursor =>
    match cursor.rest with
    | '"' :: rest => do
      let (s, next) ← readChars cursor.offset (cursor.offset + 1) [] rest
      return (.string s, next)
    | '[' :: _ =>
      let inside := (cursor.skip 1).skipSpace
      match inside.rest with
      | ']' :: _ => .ok (.array [], inside.skip 1)
      | _ => readItems fuel [] inside
    | '\x7b' :: _ =>
      let inside := (cursor.skip 1).skipSpace
      match inside.rest with
      | '\x7d' :: _ => .ok (.object [], inside.skip 1)
      | _ => readFields fuel [] inside
    | _ => readWord cursor

/-- Reads the items of an array up to its closing bracket; `done` holds those read, last first. -/
def readItems : Nat → List Json → Cursor → Except ReadError (Json × Cursor)
  | 0, _, cursor => cursor.fail .value
  | fuel + 1, done, cursor => do
    let (item, next) ← readValue fuel cursor
    let next := next.skipSpace
    match next.rest with
    | ']' :: _ => return (.array (item :: done).reverse, next.skip 1)
    | ',' :: _ => readItems fuel (item :: done) (next.skip 1).skipSpace
    | _ => next.fail .comma

/-- Reads the entries of an object up to its closing brace; `done` holds those read, in order. -/
def readFields : Nat → List (String × Json) → Cursor → Except ReadError (Json × Cursor)
  | 0, _, cursor => cursor.fail .name
  | fuel + 1, done, cursor =>
    match cursor.rest with
    | '"' :: rest => do
      let (name, next) ← readChars cursor.offset (cursor.offset + 1) [] rest
      let next := next.skipSpace
      match next.rest with
      | ':' :: _ =>
        let (value, next) ← readValue fuel (next.skip 1).skipSpace
        let next := next.skipSpace
        let fields := insert done name value
        match next.rest with
        | '\x7d' :: _ => return (.object fields, next.skip 1)
        | ',' :: _ => readFields fuel fields (next.skip 1).skipSpace
        | _ => next.fail .comma
      | _ => next.fail .colon
    | _ => cursor.fail .name

end

/-- The value that a text holds. -/
def readList (cs : List Char) : Except ReadError Json :=
  if cs.head? = some '\ufeff' then .error ⟨.byteOrderMark, 0⟩
  else do
    let (value, next) ← readValue (2 * cs.length + 2) (Cursor.mk 0 cs).skipSpace
    let next := next.skipSpace
    if next.rest.isEmpty then return value else next.fail .extra

/-- The value that a text holds. -/
def read (text : String) : Except ReadError Json := readList text.toList

end Criteria.Json
