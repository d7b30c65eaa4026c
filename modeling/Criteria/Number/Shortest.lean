import Criteria.Number.Double

/-!
# The shortest decimal of a double

`Double.shortest` is the decimal with the fewest digits that reads back as the given double, and
the nearest of those; every candidate is read back before it is chosen. `Double.text` and
`Double.plain` lay it out with and without exponents.
-/

namespace Criteria

namespace Double

/-- The two decimals of `places` digits around a size, nearer first, a tie to the even one. A size
of fewer digits is its own only candidate. -/
def candidates (exact : Decimal) (places : Nat) : List Decimal :=
  let length := (Nat.toDigits 10 exact.digits).length
  if length ≤ places then [exact]
  else
    let step := Nat.pow 10 (length - places)
    let below := exact.digits / step
    let twice := 2 * (exact.digits % step)
    let exponent := exact.exponent + (length - places : Nat)
    if twice < step ∨ twice = step ∧ below % 2 = 0 then
      [⟨below, exponent⟩, ⟨below + 1, exponent⟩]
    else [⟨below + 1, exponent⟩, ⟨below, exponent⟩]

/-- The decimal of fewest digits that reads back as the size `significand · 2 ^ scale`. Seventeen
digits always do; the exact decimal stands behind them. -/
def shortest (significand scale : Nat) : Decimal :=
  let exact := exactDecimal significand scale
  let value := pack false significand scale
  let tried := ((List.range 17).map (· + 1)).flatMap (candidates exact)
  ((tried.find? fun d => ofDecimal false d = value).getD exact).trim

/-- Zero and sizes from `10 ^ (-4)` up to, and without, `10 ^ 16` are written without exponent,
whole numbers among them with `.0`; other sizes with one. -/
def sizeText (significand scale : Nat) : List Char :=
  if significand = 0 then ['0', '.', '0']
  else
    let d := shortest significand scale
    if -4 ≤ d.magnitude ∧ d.magnitude < 16 then
      if 0 ≤ d.exponent then d.positional ++ ['.', '0'] else d.positional
    else d.scientific

/-- The text of a double in messages and in printed data, for given names of the values that are
not finite. -/
def textWith (nan infinity : String) : Double → String
  | .nan => nan
  | .infinite negative => if negative then "-" ++ infinity else infinity
  | .finite negative significand scale _ =>
    let size := String.ofList (sizeText significand scale)
    if negative then "-" ++ size else size

/-- The text of a double in messages. -/
def text : Double → String := textWith "nan" "inf"

/-- A finite double without exponent: whole numbers digit for digit and without a point, others by
their shortest decimal. Both zeros are `0`. -/
def plain? : Double → Option String
  | .finite negative significand scale h =>
    match (Double.finite negative significand scale h).toInt? with
    | some n => some (toString n)
    | none =>
      let size := String.ofList (shortest significand scale).positional
      some (if negative then "-" ++ size else size)
  | _ => none

end Double

end Criteria
