import Criteria.Datum.Moment
import Criteria.Number.Limit

/-!
# Values that cannot be had

A text can spell a value in the right form and still name none: a thirteenth month, a numeral
without digits, an integer of more digits than are read or written. Such a fault is not one of
form, and nothing goes on after it.
-/

namespace Criteria

/-- Why there is no value. -/
inductive ValueFault
  /-- Parts of a day or a time are out of range. -/
  | moment (fault : MomentFault)
  /-- A numeral to a base has no digits. -/
  | noDigits (base : Nat)
  /-- A decimal numeral has more digits than are read. -/
  | manyDigits (count : Nat)
  /-- An integer has more digits than are written. -/
  | unwritable
  /-- An integer is too large for a double. -/
  | tooLarge
  /-- No character has the code. -/
  | noCharacter (code : Nat)
  /-- No level of the log has the name. -/
  | noLevel (name : String)
  deriving DecidableEq, Repr

namespace ValueFault

/-- Codes from this one on are no words of 31 bits, and are refused as such. -/
def codeLimit : Nat := Nat.pow 2 31

/-- The fault is that a number is out of all range. -/
def isOverflow : ValueFault → Bool
  | .tooLarge => true
  | .noCharacter code => codeLimit ≤ code
  | _ => false

/-- How far integers are read and written. -/
def limitText : String :=
  s!"Exceeds the limit ({maxIntDigits} digits) for integer string conversion"

/-- What can be done about the limit. -/
def limitAdvice : String := "use sys.set_int_max_str_digits() to increase the limit"

/-- The wording of a fault. -/
def message : ValueFault → String
  | .moment fault => fault.message
  | .noDigits base => s!"invalid literal for int() with base {base}: ''"
  | .manyDigits count => s!"{limitText}: value has {count} digits; {limitAdvice}"
  | .unwritable => s!"{limitText}; {limitAdvice}"
  | .tooLarge => "int too large to convert to float"
  | .noCharacter code =>
    if codeLimit ≤ code then "Python int too large to convert to C int"
    else "chr() arg not in range(0x110000)"
  | .noLevel name => s!"Unknown level: '{name}'"

end ValueFault

end Criteria
