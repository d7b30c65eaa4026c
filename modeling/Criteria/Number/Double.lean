import Criteria.Number.Decimal

/-!
# Binary doubles

The double-precision numbers of IEEE 754, held exactly: a finite double is a sign and a significand
times a power of two, counted in units of the smallest positive double. `Double.units?` is that
count, so comparing doubles, and comparing them with integers, is comparing integers.
`Double.ofQuotient` rounds a quotient to the nearest double, a tie to the even significand;
`Double.ofDecimal` and `Double.ofInt` are instances of it, and `Double.add` and `Double.mul` round
the exact sum and product.
-/

namespace Criteria

namespace Double

/-- The unit in which doubles are counted, the smallest positive double, is
`2 ^ (-unitExponent)`. -/
@[irreducible] def unitExponent : Nat := 1074

/-- How many units make one. -/
def unitsPerOne : Nat := Nat.pow 2 unitExponent

/-- The largest scale of a finite double. -/
@[irreducible] def maxScale : Nat := 2045

/-- `significand · 2 ^ scale` is the one normal form of its value: the significand has 53 bits,
except at the lowest scale, where it may have fewer. -/
def Canonical (significand scale : Nat) : Prop :=
  significand < Nat.pow 2 53 ∧ scale ≤ maxScale ∧ (scale = 0 ∨ Nat.pow 2 52 ≤ significand)

instance (significand scale : Nat) : Decidable (Canonical significand scale) :=
  inferInstanceAs (Decidable (_ ∧ _ ∧ (_ ∨ _)))

end Double

/-- A double-precision number. -/
inductive Double
  /-- Not a number. -/
  | nan
  /-- Infinity, of either sign. -/
  | infinite (negative : Bool)
  /-- The number `significand · 2 ^ scale`, in units, with its sign. -/
  | finite (negative : Bool) (significand scale : Nat)
      (canonical : Double.Canonical significand scale)
  deriving DecidableEq

namespace Double

instance : Inhabited Double := ⟨.nan⟩

/-- Zero, of either sign. -/
def zero (negative : Bool) : Double :=
  .finite negative 0 0 ⟨by decide, Nat.zero_le _, .inl rfl⟩

/-- The double with the given normal form; a scale beyond the format's range overflows to
infinity. -/
def pack (negative : Bool) (significand scale : Nat) : Double :=
  if h : Canonical significand scale then .finite negative significand scale h
  else .infinite negative

/-- The quotient rounded to the nearest natural number, a tie to the even one. -/
def roundDiv (num den : Nat) : Nat :=
  let quotient := num / den
  let twice := 2 * (num % den)
  if twice < den then quotient
  else if den < twice then quotient + 1
  else quotient + quotient % 2

/-- The double nearest to `num / den`, a tie to the even significand. -/
def ofQuotient (negative : Bool) (num den : Nat) : Double :=
  let units := num * unitsPerOne
  let scale := (units / den).log2 - 52
  let significand := roundDiv units (den * Nat.pow 2 scale)
  if significand = Nat.pow 2 53 then pack negative (Nat.pow 2 52) (scale + 1)
  else pack negative significand scale

/-- The double nearest to a decimal. Decimals far outside the range of doubles are answered
without computing their power of ten. -/
def ofDecimal (negative : Bool) (d : Decimal) : Double :=
  if d.digits = 0 then zero negative
  else if 400 < d.exponent then .infinite negative
  else if d.exponent < -(d.digits.log2 + 401 : Int) then zero negative
  else if 0 ≤ d.exponent then ofQuotient negative (d.digits * Nat.pow 10 d.exponent.toNat) 1
  else ofQuotient negative d.digits (Nat.pow 10 (-d.exponent).toNat)

/-- The double nearest to an integer. -/
def ofInt (n : Int) : Double := ofQuotient (decide (n < 0)) n.natAbs 1

/-- Neither infinite nor NaN. -/
def isFinite : Double → Bool
  | .finite .. => true
  | _ => false

/-- The value of a finite double in units. -/
def units? : Double → Option Int
  | .finite negative significand scale _ =>
    let size : Int := (significand * Nat.pow 2 scale : Nat)
    some (if negative then -size else size)
  | _ => none

/-- The place of a double in the order of doubles; NaN has none. Infinities stand just outside the
finite doubles, whose significands are below `2 ^ 53`. -/
def rank? : Double → Option Int
  | .nan => none
  | .infinite negative =>
    let size : Int := Nat.pow 2 (maxScale + 53)
    some (if negative then -size else size)
  | d => d.units?

/-- How two doubles compare as numbers; NaN compares with nothing. -/
def compare? (a b : Double) : Option Ordering := do
  return compare (← a.rank?) (← b.rank?)

/-- Equality as numbers: the zeros are equal, NaN differs from itself. -/
def numEq (a b : Double) : Bool := a.compare? b == some .eq

/-- The double has exactly the value of the integer. -/
def eqInt (d : Double) (n : Int) : Bool := d.units? == some (n * unitsPerOne)

/-- How a double compares with an integer; NaN compares with nothing. -/
def compareInt? (d : Double) (n : Int) : Option Ordering :=
  match d with
  | .nan => none
  | .infinite negative => some (if negative then .lt else .gt)
  | d => d.units?.map fun units => compare units (n * unitsPerOne)

/-- The integer a double is equal to, when there is one. -/
def toInt? (d : Double) : Option Int := do
  let units ← d.units?
  if units % unitsPerOne = 0 then some (units / unitsPerOne) else none

/-- The sum, rounded. Infinities of opposite signs have none, and only the sum of two negative zeros
is a negative zero. -/
def add : Double → Double → Double
  | .nan, _ => .nan
  | _, .nan => .nan
  | .infinite a, .infinite b => if a = b then .infinite a else .nan
  | .infinite a, .finite .. => .infinite a
  | .finite .., .infinite b => .infinite b
  | .finite a m p _, .finite b n q _ =>
    let x : Int := if a then -(m * Nat.pow 2 p : Nat) else (m * Nat.pow 2 p : Nat)
    let y : Int := if b then -(n * Nat.pow 2 q : Nat) else (n * Nat.pow 2 q : Nat)
    if x + y = 0 then zero (m = 0 && n = 0 && a && b)
    else ofQuotient (decide (x + y < 0)) (x + y).natAbs unitsPerOne

/-- The product, rounded. Zero and infinity have none. -/
def mul : Double → Double → Double
  | .nan, _ => .nan
  | _, .nan => .nan
  | .infinite a, .infinite b => .infinite (a != b)
  | .infinite a, .finite b n _ _ => if n = 0 then .nan else .infinite (a != b)
  | .finite a m _ _, .infinite b => if m = 0 then .nan else .infinite (a != b)
  | .finite a m p _, .finite b n q _ =>
    if m = 0 ∨ n = 0 then zero (a != b)
    else ofQuotient (a != b) (m * n * Nat.pow 2 (p + q)) (unitsPerOne * unitsPerOne)

/-- The double with the opposite sign. -/
def neg : Double → Double
  | .nan => .nan
  | .infinite negative => .infinite (!negative)
  | .finite negative significand scale h => .finite (!negative) significand scale h

/-- The decimal that a finite double's size is exactly; a unit is
`5 ^ unitExponent · 10 ^ (-unitExponent)`. -/
def exactDecimal (significand scale : Nat) : Decimal :=
  ⟨significand * Nat.pow 2 scale * Nat.pow 5 unitExponent, -unitExponent⟩

end Double

end Criteria
