import Criteria.Number.Limit
import Criteria.Text.Blank
import Criteria.Text.DecimalDigit

/-!
# Integers as people write them

`readInt?` reads an integer with white space around it, an optional sign, decimal digits of any
script and single underscores between digits. The information separators are no white space here.
-/

namespace Criteria

/-- The digits of a numeral in which single underscores may stand between digits. -/
def readDigitGroups? : List Char → Option (List Nat)
  | [] => none
  | [c] => (Text.digitValue? c).map ([·])
  | c :: '_' :: rest => do return (← Text.digitValue? c) :: (← readDigitGroups? rest)
  | c :: rest => do return (← Text.digitValue? c) :: (← readDigitGroups? rest)

/-- A blank that is not an information separator. -/
def isWhiteSpace (c : Char) : Bool := Text.isBlank c && !(0x1c ≤ c.toNat && c.toNat ≤ 0x1f)

/-- The integer that a text spells. -/
def readInt? (s : String) : Option Int := do
  let (negative, run) := match Text.trim isWhiteSpace s.toList with
    | '-' :: rest => (true, rest)
    | '+' :: rest => (false, rest)
    | cs => (false, cs)
  let digits ← readDigitGroups? run
  guard (digits.length ≤ maxIntDigits)
  let size : Nat := digits.foldl (fun n d => 10 * n + d) 0
  return if negative then -(size : Int) else size

end Criteria
