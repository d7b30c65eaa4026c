/-!
# Lines and columns

A `LineIndex` turns character offsets of a text into one-based lines and columns. The starts of the
lines are collected once, in ascending order; a look-up halves them until it has counted the starts
up to the offset. Only a line feed ends a line.
-/

namespace Criteria

/-- A point of a text: the offset as it was given, and the line and column it falls on. -/
structure Position where
  offset : Int
  line : Nat
  column : Nat
  deriving DecidableEq, Repr

/-- Where the lines of a text start. -/
structure LineIndex where
  /-- How many characters the text has. -/
  length : Nat
  /-- The offsets of the first characters of the lines. -/
  starts : Array Nat

namespace LineIndex

/-- The offsets just after the line feeds of a text whose first character stands at `offset`. -/
def startsFrom (offset : Nat) : List Char → List Nat
  | [] => []
  | c :: rest => if c = '\n' then (offset + 1) :: startsFrom (offset + 1) rest
    else startsFrom (offset + 1) rest

/-- The index of a text. -/
def ofChars (cs : List Char) : LineIndex := ⟨cs.length, (0 :: startsFrom 0 cs).toArray⟩

/-- The index of a text. -/
def ofText (text : String) : LineIndex := ofChars text.toList

/-- How many of the ascending `starts` are at most `offset`, when all those before `lo` are and
none from `hi` on is. -/
def countUpTo (starts : Array Nat) (offset lo hi : Nat) (inside : hi ≤ starts.size) : Nat :=
  if h : lo < hi then
    let mid := (lo + hi) / 2
    if starts[mid] ≤ offset then countUpTo starts offset (mid + 1) hi inside
    else countUpTo starts offset lo mid (by omega)
  else lo
termination_by hi - lo

/-- The offset moved to the nearest one inside the text. -/
def clamp (index : LineIndex) (offset : Int) : Nat := min offset.toNat index.length

/-- The line that an offset falls on, from one. -/
def line (index : LineIndex) (offset : Int) : Nat :=
  countUpTo index.starts (index.clamp offset) 0 index.starts.size (Nat.le_refl _)

/-- The column that an offset falls on, from one. -/
def column (index : LineIndex) (offset : Int) : Nat :=
  index.clamp offset - index.starts.getD (index.line offset - 1) 0 + 1

/-- The point of the text at an offset; offsets outside the text fall on its ends. -/
def position (index : LineIndex) (offset : Int) : Position :=
  ⟨offset, index.line offset, index.column offset⟩

end LineIndex

end Criteria
