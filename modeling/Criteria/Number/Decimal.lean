/-!
# Decimal numerals

A `Decimal` is a natural number scaled by a power of ten: the exact meaning of a run of digits
with a point and an exponent. `Decimal.ofParts` reads one from its digit runs and
`Decimal.positional` and `Decimal.scientific` write one, digit for digit.
-/

namespace Criteria

/-- The number `digits · 10 ^ exponent`. -/
structure Decimal where
  digits : Nat
  exponent : Int
  deriving DecidableEq, Repr

namespace Decimal

/-- The decimal written `whole.fraction`, times `10 ^ exponent`; both runs hold digits only. -/
def ofParts (whole fraction : List Char) (exponent : Int) : Decimal :=
  ⟨Nat.ofDigitChars 10 (whole ++ fraction) 0, exponent - fraction.length⟩

/-- A sign character read as "negative?", and what follows it. No sign counts as plus. -/
def splitSign : List Char → Bool × List Char
  | '-' :: rest => (true, rest)
  | '+' :: rest => (false, rest)
  | cs => (false, cs)

/-- The longest run of ASCII digits at the front, and the rest. -/
def splitDigits (cs : List Char) : List Char × List Char :=
  (cs.takeWhile Char.isDigit, cs.dropWhile Char.isDigit)

/-- An exponent mark `e` or `E` with at least one digit, optionally signed. When the mark is not
followed by digits there is no exponent, and nothing is taken. -/
def splitExponent (cs : List Char) : Option Int × List Char :=
  match cs with
  | e :: tail =>
    if e = 'e' ∨ e = 'E' then
      let (negative, unsigned) := splitSign tail
      match splitDigits unsigned with
      | ([], _) => (none, cs)
      | (run, rest) =>
        let size : Int := Nat.ofDigitChars 10 run 0
        (some (if negative then -size else size), rest)
    else (none, cs)
  | [] => (none, [])

/-- The same number without trailing zeros in `digits`. -/
def trim (d : Decimal) : Decimal :=
  let zeros := ((Nat.toDigits 10 d.digits).reverse.takeWhile (· = '0')).length
  ⟨d.digits / Nat.pow 10 zeros, d.exponent + zeros⟩

/-- Plain notation: every digit is written, with a point only when `exponent` is negative, and then
with at least one digit before it. -/
def positional (d : Decimal) : List Char :=
  let run := Nat.toDigits 10 d.digits
  if 0 ≤ d.exponent then run ++ List.replicate d.exponent.toNat '0'
  else
    let places := (-d.exponent).toNat
    let padded := List.replicate (places + 1 - run.length) '0' ++ run
    let whole := padded.length - places
    padded.take whole ++ '.' :: padded.drop whole

/-- The power of ten of the first digit. -/
def magnitude (d : Decimal) : Int :=
  ((Nat.toDigits 10 d.digits).length : Int) - 1 + d.exponent

/-- Scientific notation: one digit before the point, the exponent signed and at least two digits
wide. -/
def scientific (d : Decimal) : List Char :=
  let size := Nat.toDigits 10 d.magnitude.natAbs
  let power := 'e' :: (if d.magnitude < 0 then '-' else '+') ::
    (List.replicate (2 - size.length) '0' ++ size)
  match Nat.toDigits 10 d.digits with
  | first :: second :: more => first :: '.' :: second :: more ++ power
  | run => run ++ power

end Decimal

end Criteria
