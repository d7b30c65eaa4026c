import Criteria.Datum.Basic
import Criteria.Number.Hexadecimal
import Criteria.Text.Pieces
import Criteria.Yaml.Refusal
import Criteria.Yaml.Timestamp

/-!
# Plain scalars

A scalar that is written without quotes is a value by its spelling: the empty text and `null`, the
words for truth values, integers to several bases, doubles with a point, days and times.
Underscores may stand among digits, and a number may be given in groups to the base sixty, as in
`1:30`. Any other spelling is a string. `Yaml.plainValue` reads the spelling.
-/

namespace Criteria.Yaml

/-- The spellings of no value. -/
def nullNames : List String := ["", "~", "null", "Null", "NULL"]

/-- The spellings of truth. -/
def trueNames : List String := ["yes", "Yes", "YES", "true", "True", "TRUE", "on", "On", "ON"]

/-- The spellings of falsehood. -/
def falseNames : List String := ["no", "No", "NO", "false", "False", "FALSE", "off", "Off", "OFF"]

/-- The spellings of infinity, without a sign. -/
def infinityNames : List String := [".inf", ".Inf", ".INF"]

/-- The spellings of the double that is not a number. -/
def nanNames : List String := [".nan", ".NaN", ".NAN"]

/-- The key of the entry whose value is merged into a mapping. -/
def mergeName : String := "<<"

/-- The key of the entry that stands for a mapping; elsewhere it has no meaning. -/
def standForName : String := "="

/-- The digits of a run in which underscores may stand. -/
def withoutUnderscores (cs : List Char) : List Char := cs.filter (· ≠ '_')

/-- A digit or an underscore. -/
def isDigitOrUnderscore (c : Char) : Bool := c.isDigit || c = '_'

/-- The pieces between the colons of a text. -/
def groups (cs : List Char) : List (List Char) := Text.pieces ':' cs

/-- A group after the first: one digit, or two digits below sixty. -/
def isSexagesimalGroup : List Char → Bool
  | [d] => d.isDigit
  | [tens, ones] => '0' ≤ tens && tens ≤ '5' && ones.isDigit
  | _ => false

/-! ## Integers -/

/-- The number that a run of digits to a base denotes; there is at least one. -/
def basedValue (base : Nat) (digits : List Char) : Except ValueFault Nat :=
  if digits.isEmpty then .error (.noDigits base)
  else .ok (((digits.mapM Hexadecimal.digit?).getD []).foldl (fun n d => base * n + d) 0)

/-- The number that a run of decimal digits denotes. -/
def decimalValue (digits : List Char) : Except ValueFault Nat :=
  if maxIntDigits < digits.length then .error (.manyDigits digits.length)
  else .ok (Nat.ofDigitChars 10 digits 0)

/-- The number that groups to the base sixty denote, the most significant first. -/
def sexagesimalValue (groups : List (List Char)) : Except ValueFault Nat :=
  groups.foldlM (fun n group => return 60 * n + (← decimalValue (withoutUnderscores group))) 0

/-- A hexadecimal digit or an underscore. -/
def isHexOrUnderscore (c : Char) : Bool := (Hexadecimal.digit? c).isSome || c = '_'

/-- The number that a spelling without a sign denotes as an integer. -/
def natural? : List Char → Option (Except ValueFault Nat)
  | ['0'] => some (.ok 0)
  | '0' :: 'b' :: first :: more =>
    if (first :: more).all fun c => c = '0' || c = '1' || c = '_' then
      some (basedValue 2 (withoutUnderscores (first :: more)))
    else none
  | '0' :: 'x' :: first :: more =>
    if (first :: more).all isHexOrUnderscore then
      some (basedValue 16 (withoutUnderscores (first :: more)))
    else none
  | '0' :: digits =>
    if digits.all fun c => ('0' ≤ c && c ≤ '7') || c = '_' then
      some (basedValue 8 ('0' :: withoutUnderscores digits))
    else none
  | first :: rest =>
    if first.isDigit then
      match groups (first :: rest) with
      | leading :: more =>
        if leading.all isDigitOrUnderscore && more.all isSexagesimalGroup then
          some (sexagesimalValue (leading :: more))
        else none
      | [] => none
    else none
  | [] => none

/-! ## Doubles -/

/-- The exponent after a point and digits: none, or `e`, a sign and digits. -/
def exponentValue? : List Char → Option Int
  | [] => some 0
  | e :: sign :: digits =>
    if (e = 'e' ∨ e = 'E') ∧ (sign = '+' ∨ sign = '-') ∧ digits ≠ [] ∧ digits.all Char.isDigit then
      let size : Int := Nat.ofDigitChars 10 digits 0
      some (if sign = '-' then -size else size)
    else none
  | _ => none

/-- The sum of groups to the base sixty, the least significant first: group by group, each product
and each sum rounded. The groups given stand `unit` times as high as ones. -/
def sumGroups (unit : Nat) (sum : Double) : List Double → Except ValueFault Double
  | [] => .ok sum
  | group :: rest =>
    if (Double.ofInt unit).isFinite then
      sumGroups (60 * unit) (sum.add (group.mul (.ofInt unit))) rest
    else .error .tooLarge

/-- The double nearest to a decimal that is written with a point. -/
def doubleOfParts (whole fraction : List Char) (exponent : Int) : Double :=
  .ofDecimal false (.ofParts whole fraction exponent)

/-- The double that groups to the base sixty denote, the last one with a fraction. -/
def sexagesimalDouble (groups : List (List Char)) (fraction : List Char) :
    Except ValueFault Double :=
  match groups.reverse with
  | [] => .ok (.zero false)
  | last :: higher =>
    sumGroups 1 (.zero false) (doubleOfParts last fraction 0 ::
      higher.map fun group => doubleOfParts (withoutUnderscores group) [] 0)

/-- The double that a spelling with a point denotes, without its sign; there is a sign in front of it
or not. -/
def pointValue? (signed : Bool) (cs : List Char) : Option (Except ValueFault Double) := do
  let whole := cs.takeWhile fun c => isDigitOrUnderscore c || c = ':'
  let tail ← after? '.' (cs.drop whole.length)
  let fraction := tail.takeWhile isDigitOrUnderscore
  let places := withoutUnderscores fraction
  let exponent ← exponentValue? (tail.drop fraction.length)
  match groups whole with
  | [leading] =>
    if leading.isEmpty then
      guard (¬signed ∧ (fraction.head?.map Char.isDigit).getD false)
    else guard (leading.headD '_').isDigit
    return .ok (doubleOfParts (withoutUnderscores leading) places exponent)
  | leading :: more =>
    guard ((leading.headD '_').isDigit ∧ leading.all isDigitOrUnderscore ∧
      more.all isSexagesimalGroup ∧ fraction.length = tail.length)
    return sexagesimalDouble (leading :: more) places
  | [] => none

/-! ## All spellings -/

/-- The number that a spelling denotes. -/
def number? (cs : List Char) : Option (Except ValueFault Scalar) :=
  let (negative, unsigned) := Decimal.splitSign cs
  let signed := decide (unsigned.length < cs.length)
  match pointValue? signed unsigned with
  | some size => some (size.map fun d => .double (if negative then d.neg else d))
  | none =>
    if infinityNames.contains (String.ofList unsigned) then
      some (.ok (.double (.infinite negative)))
    else if nanNames.contains (String.ofList cs) then some (.ok (.double .nan))
    else (natural? unsigned).map fun size =>
      size.map fun n => .int (if negative then -(n : Int) else n)

/-- The value of a plain scalar; a merge outside of keys has none. -/
def plainValue (cs : List Char) : Except Refusal Atom :=
  let text := String.ofList cs
  if nullNames.contains text then .ok (.scalar .null)
  else if trueNames.contains text then .ok (.scalar (.bool true))
  else if falseNames.contains text then .ok (.scalar (.bool false))
  else if text = mergeName ∨ text = standForName then .error .unreadable
  else match number? cs with
    | some value => (value.mapError .value).map .scalar
    | none =>
      match timestamp? cs with
      | some value => (value.mapError fun fault => .value (.moment fault)).map .moment
      | none => .ok (.string text)

end Criteria.Yaml
