/-!
# Hexadecimal numerals

`Hexadecimal.read?` reads a run of hexadecimal digits, in either case, as a number.
-/

namespace Criteria.Hexadecimal

/-- The value of a digit. -/
def digit? (c : Char) : Option Nat :=
  if c.isDigit then some (c.toNat - 0x30)
  else if 'a' ≤ c ∧ c ≤ 'f' then some (c.toNat - 0x57)
  else if 'A' ≤ c ∧ c ≤ 'F' then some (c.toNat - 0x37)
  else none

/-- The number that some digits denote, the most significant first. -/
def read? (cs : List Char) : Option Nat := do
  return (← cs.mapM digit?).foldl (fun n d => 16 * n + d) 0

end Criteria.Hexadecimal
