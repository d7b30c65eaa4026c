import Criteria.Yaml.Text

/-!
# Places in a text

A `Cursor` is a place in a text: what is still to be read, and the line and the column where it
starts. The marks of a layout are recognised at a cursor.
-/

namespace Criteria.Yaml

/-- A key and its colon are at most this many characters apart. -/
def maxKeyLength : Nat := 1024

/-- The text that is still to be read, and where it starts. -/
structure Cursor where
  rest : List Char
  line : Nat
  column : Nat

namespace Cursor

/-- The number of columns of a character; a byte-order mark has none. -/
def width (c : Char) : Nat := if c = '\ufeff' then 0 else 1

/-- The cursor after some characters. -/
def skip (cursor : Cursor) : Nat → Cursor
  | 0 => cursor
  | count + 1 =>
    match cursor.rest with
    | [] => cursor
    | c :: rest =>
      if isBreak c then (Cursor.mk rest (cursor.line + 1) 0).skip count
      else (Cursor.mk rest cursor.line (cursor.column + width c)).skip count

/-- The cursor where only `left` is still to be read. -/
def upTo (cursor : Cursor) (left : List Char) : Cursor :=
  cursor.skip (cursor.rest.length - left.length)

/-- The number of characters up to the next token, in a comment or not: spaces, line breaks and
comments are skipped. -/
def gapLength (comment : Bool) : List Char → Nat
  | [] => 0
  | c :: rest =>
    if isBreak c then gapLength false rest + 1
    else if comment || c = ' ' then gapLength comment rest + 1
    else if c = '#' then gapLength true rest + 1
    else 0

/-- The cursor at the next token. -/
def next (cursor : Cursor) : Cursor := cursor.skip (gapLength false cursor.rest)

/-- Nothing is left. -/
def atEnd (cursor : Cursor) : Bool := cursor.rest.isEmpty

/-- A character comes first. -/
def isAt (c : Char) (cursor : Cursor) : Bool := cursor.rest.head? == some c

/-- A character comes first, and a blank or nothing after it. -/
def atMark (c : Char) (cursor : Cursor) : Bool := cursor.isAt c && startsWhite (cursor.rest.drop 1)

/-- An item of a sequence starts here. -/
def atItem (cursor : Cursor) : Bool := cursor.atMark '-'

/-- A key that may be any node starts here. -/
def atKeyMark (cursor : Cursor) : Bool := cursor.atMark '?'

/-- The colon before a value stands here. -/
def atColon (cursor : Cursor) : Bool := cursor.atMark ':'

/-- What starts at a cursor can be the key for a colon at another: both stand on one line, and near
enough. -/
def reaches (start colon : Cursor) : Bool :=
  start.line == colon.line && decide (colon.column ≤ start.column + maxKeyLength)

end Cursor

end Criteria.Yaml
