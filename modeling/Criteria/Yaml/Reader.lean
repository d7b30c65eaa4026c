import Criteria.Text.LineBreaks
import Criteria.Yaml.BlockText
import Criteria.Yaml.Cursor
import Criteria.Yaml.Node

/-!
# Reading indented data

`Yaml.read` reads the form of YAML in which people write catalogs: mappings and sequences laid out by
indentation or in brackets, scalars with and without quotes or as whole lines, comments, and at most
one document. Anchors, tags and directives are refused like every other text that is not of this
form; a refusal says no more than that.

Layout is decided by columns. A collection starts at the column of its first entry and goes on as
long as the next token stands in that column; whatever ends it is left to the collections around it,
and to the document in the end, which refuses what is left over. A key stands on one line with its
colon, and may not be longer than `maxKeyLength`, or follows the mark `?`.
-/

namespace Criteria.Yaml

/-- The text is not of the form unless the condition holds. -/
def demand (condition : Bool) : Except Refusal Unit :=
  if condition then .ok () else .error .unreadable

/-- The scalar at the cursor, which is not one of whole lines, and the cursor after it. Further lines
of it are indented to the column `floor` at least. -/
def readScalar (flow : Bool) (floor : Nat) (cursor : Cursor) : Except Refusal (Node × Cursor) :=
  match cursor.rest with
  | '"' :: rest => do
    let (text, left) ← quotedText true rest
    return (.scalar text false, cursor.upTo left)
  | '\'' :: rest => do
    let (text, left) ← quotedText false rest
    return (.scalar text false, cursor.upTo left)
  | cs =>
    if startsPlain flow cs then
      let (text, left) := plainText flow floor cs
      .ok (.scalar text true, cursor.upTo left)
    else .error .unreadable

/-! ## In brackets -/

/-- A value or a key is missing before these characters. -/
def endsFlowPart (cursor : Cursor) : Bool :=
  cursor.isAt ',' || cursor.isAt ']' || cursor.isAt '\x7d'

mutual

/-- The node at the cursor, and the cursor after it. -/
def readFlow : Nat → Cursor → Except Refusal (Node × Cursor)
  | 0, _ => .error .unreadable
  | fuel + 1, cursor =>
    if cursor.isAt '[' then readFlowItems fuel [] (cursor.skip 1).next
    else if cursor.isAt '\x7b' then readFlowEntries fuel [] (cursor.skip 1).next
    else readScalar true 0 cursor

/-- The items of a sequence in brackets, those before the cursor given last first. An item with a
key is a mapping of one entry. -/
def readFlowItems : Nat → List Node → Cursor → Except Refusal (Node × Cursor)
  | 0, _, _ => .error .unreadable
  | fuel + 1, done, cursor =>
    if cursor.isAt ']' then .ok (.list done.reverse, cursor.skip 1)
    else do
      let (item, after) ← readFlowItem fuel cursor
      if after.isAt ',' then readFlowItems fuel (item :: done) (after.skip 1).next
      else if after.isAt ']' then return (.list (item :: done).reverse, after.skip 1)
      else throw .unreadable

/-- An item of a sequence in brackets, and the cursor at the next token. -/
def readFlowItem : Nat → Cursor → Except Refusal (Node × Cursor)
  | 0, _ => .error .unreadable
  | fuel + 1, cursor =>
    if cursor.isAt '?' then do
      let (key, value, after) ← readFlowPair fuel (cursor.skip 1).next
      return (.record [(key, value)], after)
    else do
      let (node, after) ← readFlow fuel cursor
      let mark := after.next
      if mark.isAt ':' then
        demand (cursor.reaches mark)
        let (value, after) ← readFlowPart fuel (mark.skip 1).next
        return (.record [(node, value)], after)
      else return (node, mark)

/-- The entries of a mapping in braces, those before the cursor given last first. A key without a
colon has no value. -/
def readFlowEntries : Nat → List (Node × Node) → Cursor → Except Refusal (Node × Cursor)
  | 0, _, _ => .error .unreadable
  | fuel + 1, done, cursor =>
    if cursor.isAt '\x7d' then .ok (.record done.reverse, cursor.skip 1)
    else do
      let (key, value, after) ← readFlowEntry fuel cursor
      if after.isAt ',' then readFlowEntries fuel ((key, value) :: done) (after.skip 1).next
      else if after.isAt '\x7d' then return (.record ((key, value) :: done).reverse, after.skip 1)
      else throw .unreadable

/-- An entry of a mapping in braces, and the cursor at the next token. -/
def readFlowEntry : Nat → Cursor → Except Refusal (Node × Node × Cursor)
  | 0, _ => .error .unreadable
  | fuel + 1, cursor =>
    if cursor.isAt '?' then readFlowPair fuel (cursor.skip 1).next
    else do
      let (key, after) ← readFlow fuel cursor
      let mark := after.next
      if mark.isAt ':' then
        demand (cursor.reaches mark)
        let (value, after) ← readFlowPart fuel (mark.skip 1).next
        return (key, value, after)
      else return (key, .empty, mark)

/-- A key and a value in brackets after the mark of a key, each of which may be missing, and the
cursor at the next token. -/
def readFlowPair : Nat → Cursor → Except Refusal (Node × Node × Cursor)
  | 0, _ => .error .unreadable
  | fuel + 1, cursor => do
    let (key, after) ← if cursor.isAt ':' then .ok (.empty, cursor) else readFlowPart fuel cursor
    if after.isAt ':' then
      let (value, after) ← readFlowPart fuel (after.skip 1).next
      return (key, value, after)
    else return (key, .empty, after)

/-- A value or a key in brackets, which is missing before a comma or a closing bracket, and the
cursor at the next token. -/
def readFlowPart : Nat → Cursor → Except Refusal (Node × Cursor)
  | 0, _ => .error .unreadable
  | fuel + 1, cursor =>
    if endsFlowPart cursor then .ok (.empty, cursor)
    else (readFlow fuel cursor).map fun (node, after) => (node, after.next)

end

/-! ## Laid out by indentation -/

/-- A node that can be a key, and the cursor after it: a scalar, or a collection in brackets. -/
def readShort (fuel floor : Nat) (cursor : Cursor) : Except Refusal (Node × Cursor) :=
  if cursor.isAt '[' || cursor.isAt '\x7b' then readFlow fuel cursor
  else readScalar false floor cursor

mutual

/-- The node at the cursor, and the cursor at the next token. Further lines of a scalar are indented
to the column `floor` at least; a collection may start here or, on the line of a key, may not. -/
def readBlock : Nat → Nat → Bool → Cursor → Except Refusal (Node × Cursor)
  | 0, _, _, _ => .error .unreadable
  | fuel + 1, floor, mayStart, cursor =>
    if cursor.atItem then do
      demand mayStart
      readItems fuel cursor.column [] cursor
    else if cursor.atKeyMark then do
      demand mayStart
      readEntries fuel cursor.column [] cursor
    else if cursor.isAt '|' || cursor.isAt '>' then
      match blockText? (cursor.isAt '>') (max 1 floor) (cursor.rest.drop 1) with
      | some (text, left) => .ok (.scalar text false, (cursor.upTo left).next)
      | none => .error .unreadable
    else do
      let (node, after) ← readShort fuel floor cursor
      let next := after.next
      if next.atColon && next.line == after.line then
        demand (mayStart && cursor.reaches next)
        readValue fuel cursor.column [] node false (next.skip 1)
      else
        demand (next.atEnd || decide (after.line < next.line))
        return (node, next)

/-- The items of a sequence in a column, the cursor at the mark of one and those before it given last
first. An item that is not indented beyond its mark is missing. -/
def readItems : Nat → Nat → List Node → Cursor → Except Refusal (Node × Cursor)
  | 0, _, _, _ => .error .unreadable
  | fuel + 1, column, done, cursor => do
    let next := (cursor.skip 1).next
    let (item, next) ←
      if next.atEnd || next.column ≤ column then .ok (.empty, next)
      else readBlock fuel (column + 1) true next
    if next.atItem && next.column == column then readItems fuel column (item :: done) next
    else return (.list (item :: done).reverse, next)

/-- The entries of a mapping in a column, those before the cursor given last first, the cursor at the
next token. -/
def readEntries :
    Nat → Nat → List (Node × Node) → Cursor → Except Refusal (Node × Cursor)
  | 0, _, _, _ => .error .unreadable
  | fuel + 1, column, done, cursor =>
    if cursor.atEnd || cursor.column != column then .ok (.record done.reverse, cursor)
    else if cursor.atKeyMark then do
      let (key, next) ← readPart fuel column true (cursor.skip 1)
      if next.atColon && next.column == column then readValue fuel column done key true (next.skip 1)
      else readEntries fuel column ((key, .empty) :: done) next
    else do
      let (key, after) ← readShort fuel (column + 1) cursor
      let mark := after.next
      demand (mark.atColon && cursor.reaches mark)
      readValue fuel column done key false (mark.skip 1)

/-- The value of a key of a mapping in a column, and the entries after it, the cursor after the
colon. On the line of the colon a collection may start or may not. -/
def readValue :
    Nat → Nat → List (Node × Node) → Node → Bool → Cursor → Except Refusal (Node × Cursor)
  | 0, _, _, _, _, _ => .error .unreadable
  | fuel + 1, column, done, key, mayStart, cursor => do
    let (value, next) ← readPart fuel column mayStart cursor
    readEntries fuel column ((key, value) :: done) next

/-- The node after a mark of a mapping in a column, and the cursor at the next token. A sequence may
stand in the same column; what is not indented is missing. -/
def readPart : Nat → Nat → Bool → Cursor → Except Refusal (Node × Cursor)
  | 0, _, _, _ => .error .unreadable
  | fuel + 1, column, mayStart, cursor =>
    let next := cursor.next
    if next.atEnd then .ok (.empty, next)
    else if next.line = cursor.line then readBlock fuel (column + 1) mayStart next
    else if column < next.column then readBlock fuel (column + 1) true next
    else if next.atItem && next.column == column then readItems fuel column [] next
    else .ok (.empty, next)

end

/-! ## Documents -/

/-- The characters that may stand in a text. -/
def isAllowed (c : Char) : Bool :=
  let n := c.toNat
  n == 0x9 || n == 0xa || n == 0xd || (0x20 ≤ n && n ≤ 0x7e) || n == 0x85 ||
    (0xa0 ≤ n && n ≤ 0xd7ff) || (0xe000 ≤ n && n ≤ 0xfffd) || 0x10000 ≤ n

/-- The document that starts at the cursor and takes all the rest; no text is no value. A collection
may not start on the cursor's own line when a mark stands before it. -/
def readDocument (marked : Bool) (cursor : Cursor) : Except Refusal Node := do
  let next := cursor.next
  if next.atEnd then return .empty
  let (node, next) ←
    readBlock (8 * (cursor.rest.length + 1)) 0 (!marked || decide (cursor.line < next.line)) next
  demand next.atEnd
  return node

/-- The line is the mark `---` or `...`, followed by a blank or nothing. -/
def isMark (mark line : List Char) : Bool := line.take 3 == mark && startsWhite (line.drop 3)

/-- The mark before a document. -/
def startMark : List Char := ['-', '-', '-']

/-- The mark after a document. -/
def endMark : List Char := ['.', '.', '.']

/-- The line is a mark of either kind. -/
def isAnyMark (line : List Char) : Bool := isMark startMark line || isMark endMark line

/-- Nothing is in the text but blanks and comments. -/
def isVoid (cs : List Char) : Bool := (Cursor.mk cs 0 0).next.atEnd

/-- Nothing is in the lines after a document but marks of its end. -/
def isTail (lines : List (List Char)) : Bool :=
  lines.all fun line => isVoid (if isMark endMark line then line.drop 3 else line)

/-- The lines of a text, each with its break. -/
def splitLines : List Char → List (List Char)
  | [] => []
  | c :: rest =>
    if isBreak c then [c] :: splitLines rest
    else match splitLines rest with
      | [] => [[c]]
      | line :: more => (c :: line) :: more

/-- The one document in some lines. -/
def readLines (lines : List (List Char)) : Except Refusal Node :=
  let body := (lines.takeWhile fun line => !isAnyMark line).flatten
  match lines.dropWhile fun line => !isAnyMark line with
  | [] => readDocument false ⟨body, 0, 0⟩
  | mark :: more =>
    if isVoid body then do
      demand (isMark startMark mark)
      let inside := more.takeWhile fun line => !isAnyMark line
      let node ← readDocument true ⟨mark.drop 3 ++ inside.flatten, 0, 3⟩
      demand (isTail (more.drop inside.length))
      return node
    else do
      let node ← readDocument false ⟨body, 0, 0⟩
      demand (isTail (mark :: more))
      return node

/-- A byte-order mark at the front does not count. -/
def dropByteOrderMark : List Char → List Char
  | '\ufeff' :: rest => rest
  | cs => cs

/-- The data that a text holds. -/
def read (text : String) : Except Refusal Datum := do
  demand (text.toList.all isAllowed)
  let node ← readLines (splitLines
    ((Text.unifyBreaks (dropByteOrderMark text.toList)).map fun c =>
      if c = '\u0085' then '\n' else c))
  node.read

end Criteria.Yaml
