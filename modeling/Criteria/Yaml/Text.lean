import Criteria.Number.Hexadecimal
import Criteria.Yaml.Refusal

/-!
# The text of scalars

A scalar may run over several lines. A single line break in it reads as a space and each further
one as a line feed; spaces around line breaks do not count. `plainText` takes the text of a scalar
without quotes off the front of some characters, and `quotedText` that of a scalar in quotes, up to
its closing quote.
-/

namespace Criteria.Yaml

/-- A line break. -/
def isBreak (c : Char) : Bool := c = '\n' || c = '\u2028' || c = '\u2029'

/-- A space or a line break. -/
def isGap (c : Char) : Bool := c = ' ' || isBreak c

/-- A space, a tab or a line break. -/
def isWhite (c : Char) : Bool := isGap c || c = '\t'

/-- Nothing or a space, a tab or a line break comes first. -/
def startsWhite (cs : List Char) : Bool := (cs.head?.map isWhite).getD true

/-- What spaces and line breaks between two words of a scalar read as. -/
def fold (gap : List Char) : List Char :=
  match gap.filter isBreak with
  | [] => gap
  | ['\n'] => [' ']
  | '\n' :: more => more
  | breaks => breaks

/-- The part after a run of characters of a class is no longer than the whole. -/
theorem length_dropWhile_le (p : Char → Bool) (cs : List Char) :
    (cs.dropWhile p).length ≤ cs.length := (List.dropWhile_sublist p).length_le

/-! ## Without quotes -/

/-- A character that brackets and separates the parts of a value written in brackets. -/
def isFlowMark (c : Char) : Bool := [',', '[', ']', '{', '}'].contains c

/-- A colon before these characters is a mark: they are blank, or inside brackets such a bracket or
separator comes first. -/
def afterColon (flow : Bool) (cs : List Char) : Bool :=
  startsWhite cs || (flow && (cs.head?.map isFlowMark).getD false)

/-- A word of a scalar ends before these characters. -/
def endsWord (flow : Bool) : List Char → Bool
  | [] => true
  | c :: rest =>
    isWhite c || (c = ':' && afterColon flow rest) || (flow && (isFlowMark c || c = '?'))

/-- A scalar goes on after a gap: no comment follows and, outside brackets, a new line is indented
to the given column at least. -/
def goesOn (flow : Bool) (floor : Nat) (gap after : List Char) : Bool :=
  !endsWord flow after && after.head? != some '#' &&
    (flow || !gap.any isBreak || floor ≤ (gap.reverse.takeWhile (· = ' ')).length)

/-- The text of a scalar without quotes, from inside a word of it on, and what follows the
scalar. -/
def plainText (flow : Bool) (floor : Nat) : List Char → List Char × List Char
  | [] => ([], [])
  | c :: rest =>
    if isGap c then
      let gap := c :: rest.takeWhile isGap
      let after := rest.dropWhile isGap
      if goesOn flow floor gap after then
        let (text, left) := plainText flow floor after
        (fold gap ++ text, left)
      else ([], c :: rest)
    else if endsWord flow (c :: rest) then ([], c :: rest)
    else
      let (text, left) := plainText flow floor rest
      (c :: text, left)
termination_by cs => cs.length
decreasing_by
  · exact Nat.lt_succ_of_le (length_dropWhile_le _ _)
  · exact Nat.lt_succ_self _

/-- A scalar without quotes can start with these characters. -/
def startsPlain (flow : Bool) : List Char → Bool
  | [] => false
  | c :: rest =>
    if c = '-' || (!flow && (c = '?' || c = ':')) then !startsWhite rest
    else !isWhite c &&
      !("?:,[]\x7b\x7d#&*!|>'\"%@`".toList.contains c)

/-! ## In quotes -/

/-- The characters that a backslash and one character stand for. -/
def escaped? : Char → Option Char
  | '0' => some '\x00'
  | 'a' => some '\x07'
  | 'b' => some '\x08'
  | 't' => some '\t'
  | '\t' => some '\t'
  | 'n' => some '\n'
  | 'v' => some '\x0b'
  | 'f' => some '\x0c'
  | 'r' => some '\r'
  | 'e' => some '\x1b'
  | ' ' => some ' '
  | '"' => some '"'
  | '\\' => some '\\'
  | '/' => some '/'
  | 'N' => some '\u0085'
  | '_' => some '\u00a0'
  | 'L' => some '\u2028'
  | 'P' => some '\u2029'
  | _ => none

/-- How many digits name the code point after a backslash and a letter. -/
def codeDigits? : Char → Option Nat
  | 'x' => some 2
  | 'u' => some 4
  | 'U' => some 8
  | _ => none

/-- The character that a number of digits at the front name. -/
def codePoint (count : Nat) (cs : List Char) : Except Refusal Char :=
  match Hexadecimal.read? (cs.take count) with
  | some code =>
    if cs.length < count then .error .unreadable
    else if code.isValidChar then .ok (.ofNat code)
    else if 0x110000 ≤ code then .error (.value (.noCharacter code))
    else .error .unreadable
  | none => .error .unreadable

/-- What an escape after its backslash stands for, and how many characters it takes. A backslash at
the end of a line takes the line break and the blanks at the start of the next line with it. -/
def escape : List Char → Except Refusal (List Char × Nat)
  | [] => .error .unreadable
  | c :: rest =>
    if isBreak c then
      let gap := rest.takeWhile isWhite
      .ok (gap.filter isBreak, gap.length + 1)
    else match codeDigits? c with
      | some count => (codePoint count rest).map fun named => ([named], count + 1)
      | none =>
        match escaped? c with
        | some named => .ok ([named], 1)
        | none => .error .unreadable

/-- The text up to the closing quote, and what follows the quote. Between double quotes a backslash
escapes; between single quotes a quote is written twice. -/
def quotedText (double : Bool) : List Char → Except Refusal (List Char × List Char)
  | [] => .error .unreadable
  | c :: rest =>
    if isWhite c then
      (quotedText double (rest.dropWhile isWhite)).map fun (text, left) =>
        (fold (c :: rest.takeWhile isWhite) ++ text, left)
    else if double then
      if c = '"' then .ok ([], rest)
      else if c = '\\' then
        match escape rest with
        | .ok (named, count) =>
          (quotedText double (rest.drop count)).map fun (text, left) => (named ++ text, left)
        | .error refusal => .error refusal
      else (quotedText double rest).map fun (text, left) => (c :: text, left)
    else if c = '\'' then
      match rest with
      | '\'' :: more => (quotedText double more).map fun (text, left) => ('\'' :: text, left)
      | _ => .ok ([], rest)
    else (quotedText double rest).map fun (text, left) => (c :: text, left)
termination_by cs => cs.length
decreasing_by
  · exact Nat.lt_succ_of_le (length_dropWhile_le _ _)
  · simp only [List.length_drop, List.length_cons]; omega
  · exact Nat.lt_succ_self _
  · simp only [List.length_cons]; omega
  · exact Nat.lt_succ_self _

end Criteria.Yaml
