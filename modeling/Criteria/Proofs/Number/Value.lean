import Criteria.Proofs.Json.Exact
import Criteria.Proofs.Number.Decimal
import Mathlib.Algebra.Order.Field.Power
import Mathlib.Tactic.Positivity

/-!
# Exact values

The rational numbers that finite doubles (`Double.value?`) and decimals (`Decimal.value`) are. A
double is equal to an integer exactly when that is its value (`Double.eqInt_iff_value`), and its
exact decimal has the same value (`Double.value?_finite`). The order of decimals is that of the
quotients which they are read as (`Decimal.value_le_iff`).
-/

namespace Criteria

/-! ## Doubles -/

namespace Double

/-- The exact value of a finite double. -/
def value? (d : Double) : Option ℚ := d.units?.map fun units : Int => (units : ℚ) / unitsPerOne

variable {d : Double} {u v : Int}

theorem cast_unitsPerOne_ne_zero : (unitsPerOne : ℚ) ≠ 0 := Nat.cast_ne_zero.2 unitsPerOne_pos.ne'

/-- Counts of units that stand for the same value are the same. -/
theorem div_unitsPerOne_inj : (u : ℚ) / unitsPerOne = v / unitsPerOne ↔ u = v := by
  rw [div_left_inj' cast_unitsPerOne_ne_zero, Int.cast_inj]

/-- **A double is equal to an integer when that is its exact value.** -/
theorem eqInt_iff_value {n : Int} : d.eqInt n = true ↔ d.value? = some (n : ℚ) := by
  have hn : ((n * unitsPerOne : Int) : ℚ) / unitsPerOne = n := by
    rw [Int.cast_mul, Int.cast_natCast, mul_div_cancel_right₀ _ cast_unitsPerOne_ne_zero]
  rw [eqInt, value?, beq_iff_eq, ← hn]
  cases d.units? with
  | none => simp
  | some u => rw [Option.map_some, Option.some.injEq, Option.some.injEq, div_unitsPerOne_inj]

end Double

/-! ## Decimals -/

namespace Decimal

/-- The number that a decimal is. -/
def value (d : Decimal) : ℚ := d.digits * 10 ^ d.exponent

theorem value_eq (d : Decimal) : d.value = d.numerator / d.denominator := by
  have hexponent : d.exponent = (d.exponent.toNat : ℤ) - ((-d.exponent).toNat : ℤ) := by omega
  rw [value, numerator, denominator]
  conv_lhs => rw [hexponent, zpow_sub₀ (by norm_num), zpow_natCast, zpow_natCast]
  push_cast
  ring

/-- Decimals compare as the quotients do that they are read as. -/
theorem value_le_iff {a b : Decimal} :
    a.value ≤ b.value ↔ a.numerator * b.denominator ≤ b.numerator * a.denominator := by
  have ha : (0 : ℚ) < a.denominator := Nat.cast_pos.2 a.denominator_pos
  have hb : (0 : ℚ) < b.denominator := Nat.cast_pos.2 b.denominator_pos
  rw [value_eq, value_eq, div_le_div_iff₀ ha hb, ← Nat.cast_mul, ← Nat.cast_mul, Nat.cast_le]

theorem value_nonneg (d : Decimal) : 0 ≤ d.value := by
  unfold value
  positivity

/-- Zeros behind the digits are powers of ten. -/
theorem value_shift (n k : Nat) (e : Int) : value ⟨n * 10 ^ k, e⟩ = value ⟨n, e + k⟩ := by
  rw [value, value, zpow_add₀ (by norm_num), zpow_natCast]
  push_cast
  ring

theorem value_whole {d : Decimal} (h : 0 ≤ d.exponent) : value ⟨d.numerator, 0⟩ = d.value := by
  rw [numerator, value_shift, Int.zero_add, Int.toNat_of_nonneg h]

theorem value_mk_le {n n' : Nat} (h : n ≤ n') (e : Int) : value ⟨n, e⟩ ≤ value ⟨n', e⟩ :=
  mul_le_mul_of_nonneg_right (Nat.cast_le.2 h) (by positivity)

theorem value_trim (d : Decimal) : d.trim.value = d.value := by
  rw [value_eq, value_eq, div_eq_div_iff (Nat.cast_ne_zero.2 d.trim.denominator_pos.ne')
    (Nat.cast_ne_zero.2 d.denominator_pos.ne')]
  exact_mod_cast trim_mul_eq d

/-- The value of a decimal with a sign. -/
def signed (negative : Bool) (d : Decimal) : ℚ := if negative = true then -d.value else d.value

theorem abs_signed_sub (negative : Bool) (a b : Decimal) :
    |signed negative a - signed negative b| = |a.value - b.value| := by
  unfold signed
  split_ifs
  · rw [neg_sub_neg, abs_sub_comm]
  · rfl

theorem signed_congr {negative : Bool} {a b : Decimal} (h : a.value = b.value) :
    signed negative a = signed negative b := by
  rw [signed, signed, h]

end Decimal

/-! ## Doubles as decimals -/

namespace Double

open Decimal

/-- Decimals of one value are read alike. -/
theorem ofDecimal_congr {negative : Bool} {a b : Decimal} (h : a.value = b.value) :
    ofDecimal negative a = ofDecimal negative b := by
  rw [ofDecimal_eq, ofDecimal_eq]
  refine ofQuotient_eq_of_mul_eq negative a.denominator_pos b.denominator_pos ?_
  exact Nat.le_antisymm (value_le_iff.1 h.le) (value_le_iff.1 h.ge)

/-- The exact decimal of a size is that size. -/
theorem value_exactDecimal (m s : Nat) :
    (exactDecimal m s).value = (m * 2 ^ s : Nat) / unitsPerOne := by
  rw [exactDecimal, value, zpow_neg, zpow_natCast, unitsPerOne_eq, ← div_eq_mul_inv]
  rw [div_eq_div_iff (by positivity) (by positivity), show (10 : ℚ) = 2 * 5 by norm_num, mul_pow]
  push_cast
  simp only [Nat.pow_eq]
  push_cast
  ring

/-- A finite double is its exact decimal. -/
theorem value?_finite (negative : Bool) {m s : Nat} (h : Canonical m s) :
    (Double.finite negative m s h).value? = some (signed negative (exactDecimal m s)) := by
  rw [value?, units_finite, Option.map_some, signed, value_exactDecimal]
  split_ifs
  · push_cast
    rw [neg_div]
  · push_cast
    rfl

end Double

end Criteria
