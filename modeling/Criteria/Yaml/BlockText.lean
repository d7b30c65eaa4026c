import Criteria.Yaml.Text

/-!
# Scalars of whole lines

After the mark `|` or `>` the lines that follow are a scalar as they stand, as far as they are
indented. After `>` a single line break between two lines reads as a space, unless one of the lines
starts with a blank. The mark may be followed by the indentation of the lines and by what becomes of
the line breaks at the end: one of them is kept, or none after `-`, or all after `+`.

`blockText` takes such a text off the front of some characters.
-/

namespace Criteria.Yaml

/-- What becomes of the line breaks at the end. -/
inductive Chomp
  | clip | strip | keep
  deriving DecidableEq, Repr

/-- What follows the mark on its line. -/
structure BlockHeader where
  chomp : Chomp
  /-- The indentation beyond the collection around, when it is given. -/
  step : Option Nat

/-- The sign for the line breaks at the end, when it comes first, and the rest. -/
def chompSign? : List Char → Option (Chomp × List Char)
  | '-' :: rest => some (.strip, rest)
  | '+' :: rest => some (.keep, rest)
  | _ => none

/-- The digit for the indentation, when it comes first, and the rest. -/
def stepDigit? : List Char → Option (Nat × List Char)
  | c :: rest => if c.isDigit then some (c.toNat - 0x30, rest) else none
  | [] => none

/-- The sign and the digit after the mark, in either order, and what follows them. -/
def blockHeader (cs : List Char) : BlockHeader × List Char :=
  match chompSign? cs with
  | some (chomp, rest) =>
    match stepDigit? rest with
    | some (step, rest) => (⟨chomp, some step⟩, rest)
    | none => (⟨chomp, none⟩, rest)
  | none =>
    match stepDigit? cs with
    | some (step, rest) =>
      match chompSign? rest with
      | some (chomp, rest) => (⟨chomp, some step⟩, rest)
      | none => (⟨.clip, some step⟩, rest)
    | none => (⟨.clip, none⟩, cs)

/-- The next line, when nothing is left on this one but spaces and, after a space, a comment. -/
def nextLine? (cs : List Char) : Option (List Char) :=
  let after := cs.dropWhile (· = ' ')
  let comment := after.head? == some '#' && after.length < cs.length
  match if comment then after.dropWhile (!isBreak ·) else after with
  | [] => some []
  | c :: rest => if isBreak c then some rest else none

/-- The largest number of spaces at the start of a line, up to the first line that has other
characters. -/
def widestStart (column : Nat) : List Char → Nat
  | [] => column
  | c :: rest =>
    if c = ' ' then widestStart (column + 1) rest
    else if isBreak c then max column (widestStart 0 rest)
    else column

/-- The line breaks of the lines that hold no more than the indentation, then how many spaces of the
indentation the next line has, and what follows them. -/
def blankLines (indent column : Nat) : List Char → List Char × Nat × List Char
  | [] => ([], column, [])
  | c :: rest =>
    if c = ' ' ∧ column < indent then blankLines indent (column + 1) rest
    else if isBreak c then
      let (breaks, column, left) := blankLines indent 0 rest
      (c :: breaks, column, left)
    else ([], column, c :: rest)

/-- What follows blank lines is no longer than they and it. -/
theorem length_blankLines_le (indent column : Nat) (cs : List Char) :
    (blankLines indent column cs).2.2.length ≤ cs.length := by
  fun_induction blankLines indent column cs <;> simp_all <;> omega

/-- A blank comes first. -/
def startsBlank (cs : List Char) : Bool := cs.head? == some ' ' || cs.head? == some '\t'

/-- What the line breaks between two lines read as. -/
def betweenLines (folded : Bool) (line : List Char) (first : Char) (more next : List Char) :
    List Char :=
  if folded && first = '\n' && !startsBlank line && !startsBlank next then
    if more.isEmpty then [' '] else more
  else first :: more

/-- The text of the lines from inside an indented line on, and what follows them. -/
def blockLines (folded : Bool) (chomp : Chomp) (indent : Nat) (cs : List Char) :
    List Char × List Char :=
  let line := cs.takeWhile (!isBreak ·)
  let after := cs.dropWhile (!isBreak ·)
  if h : after ≠ [] then
    let first := after.head h
    let blank := blankLines indent 0 (after.drop 1)
    if blank.2.1 = indent ∧ blank.2.2 ≠ [] then
      let (text, left) := blockLines folded chomp indent blank.2.2
      (line ++ betweenLines folded line first blank.1 blank.2.2 ++ text, left)
    else
      let ending := match chomp with
        | .strip => []
        | .clip => [first]
        | .keep => first :: blank.1
      (line ++ ending, blank.2.2)
  else (line, [])
termination_by cs.length
decreasing_by
  have left := length_blankLines_le indent 0 (after.drop 1)
  have shorter : after.length ≤ cs.length := length_dropWhile_le (!isBreak ·) cs
  have some : 0 < after.length := List.length_pos_iff.2 h
  rw [List.length_drop] at left
  exact Nat.lt_of_le_of_lt left (by omega)

/-- The text of the lines after a mark, and what follows them. The lines are indented by `least`
spaces at least. -/
def blockText? (folded : Bool) (least : Nat) (cs : List Char) : Option (List Char × List Char) := do
  let (header, rest) := blockHeader cs
  guard (header.step ≠ some 0)
  let lines ← nextLine? rest
  let indent := match header.step with
    | some step => least + step - 1
    | none => max least (widestStart 0 lines)
  let (breaks, column, left) := blankLines indent 0 lines
  if column = indent ∧ left ≠ [] then
    let (text, left) := blockLines folded header.chomp indent left
    return (breaks ++ text, left)
  else return (if header.chomp = .keep then breaks else [], left)

end Criteria.Yaml
