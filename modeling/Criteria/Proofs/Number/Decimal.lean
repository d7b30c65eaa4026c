import Criteria.Number.Shortest
import Criteria.Proofs.Number.Rounding

/-!
# Reading decimals back

`Double.ofDecimal` is one rounding of the decimal's value, shortcuts included (`ofDecimal_eq`), so
it does not see how that value is spelled. The shortest decimal of a double reads back as the double
(`ofDecimal_shortest`), and its plain notation is two runs of digits around a point that denote it
(`positional_of_neg`).
-/

namespace Criteria

/-! ## Decimals as quotients -/

namespace Decimal

/-- The numerator of a decimal as a quotient. -/
def numerator (d : Decimal) : Nat := d.digits * 10 ^ d.exponent.toNat

/-- The denominator of a decimal as a quotient. -/
def denominator (d : Decimal) : Nat := 10 ^ (-d.exponent).toNat

theorem denominator_pos (d : Decimal) : 0 < d.denominator := Nat.pow_pos (by decide)

/-- A run of zeros at the end of the digits of a number divides it. -/
theorem ten_pow_trailing_dvd (n : Nat) :
    10 ^ ((Nat.toDigits 10 n).reverse.takeWhile (· = '0')).length ∣ n := by
  induction n using Nat.strongRecOn with
  | ind n ih =>
    rcases Nat.lt_or_ge n 10 with hlt | hge
    · rw [Nat.toDigits_of_lt_base hlt]
      rcases Nat.eq_zero_or_pos n with rfl | hn
      · exact Nat.dvd_zero _
      · simp [Nat.digitChar_eq_zero, hn.ne']
    · rw [Nat.toDigits_of_base_le (by decide) hge, List.reverse_append, List.reverse_singleton,
        List.singleton_append]
      by_cases hz : n % 10 = 0
      · rw [List.takeWhile_cons_of_pos (by simp [hz]), List.length_cons, Nat.pow_succ]
        have hdvd := Nat.mul_dvd_mul (ih (n / 10) (by omega)) (Nat.dvd_refl 10)
        rwa [Nat.div_mul_cancel (Nat.dvd_of_mod_eq_zero hz)] at hdvd
      · rw [List.takeWhile_cons_of_neg (by simpa using hz)]
        exact Nat.one_dvd n

/-- Dropping trailing zeros does not change the value. -/
theorem trim_mul_eq (d : Decimal) :
    d.trim.numerator * d.denominator = d.numerator * d.trim.denominator := by
  obtain ⟨q, hq⟩ := ten_pow_trailing_dvd d.digits
  unfold trim
  generalize ((Nat.toDigits 10 d.digits).reverse.takeWhile (· = '0')).length = zeros at hq ⊢
  have hdigits : d.digits / Nat.pow 10 zeros = q := by
    rw [Nat.pow_eq, hq, Nat.mul_div_cancel_left _ (Nat.pow_pos (by decide))]
  have hexp : (d.exponent + zeros).toNat + (-d.exponent).toNat =
      zeros + d.exponent.toNat + (-(d.exponent + zeros)).toNat := by omega
  simp only [numerator, denominator, hdigits]
  rw [hq, Nat.mul_assoc, ← Nat.pow_add, hexp, Nat.pow_add, Nat.pow_add]
  ring

end Decimal

namespace Double

open Decimal

theorem ofDecimal_of_large {negative : Bool} {d : Decimal} (hd : d.digits ≠ 0)
    (h : 400 < d.exponent) : ofQuotient negative d.numerator 1 = .infinite negative := by
  apply ofQuotient_eq_infinite
  rw [isFinite_ofQuotient, ← Bool.not_eq_true]
  intro hfin
  have hlt := mul_lt_of_isFinite_ofQuotient_one hfin
  obtain ⟨k, hk⟩ : ∃ k, d.exponent.toNat = 401 + k := ⟨d.exponent.toNat - 401, by omega⟩
  -- ten is more than the third power of two
  have hten : 2 ^ (3 * (401 + k)) ≤ 10 ^ (401 + k) := by
    rw [Nat.pow_mul]
    exact Nat.pow_le_pow_left (by decide) _
  have hle : 2 ^ (3 * (401 + k)) * unitsPerOne ≤ d.numerator * unitsPerOne := by
    apply Nat.mul_le_mul_right
    unfold numerator
    rw [hk]
    exact hten.trans (Nat.le_mul_of_pos_left _ (Nat.pos_of_ne_zero hd))
  rw [unitsPerOne_eq, ← Nat.pow_add] at hle
  have hexp := (Nat.pow_lt_pow_iff_right (by decide)).1 (Nat.lt_of_le_of_lt hle hlt)
  rw [maxScale_eq, unitExponent_eq] at hexp
  omega

theorem ofDecimal_of_small {negative : Bool} {d : Decimal}
    (h : d.exponent < -(d.digits.log2 + 401 : Int)) :
    ofQuotient negative d.digits d.denominator = zero negative := by
  apply ofQuotient_eq_zero
  obtain ⟨k, hk⟩ : ∃ k, (-d.exponent).toNat = d.digits.log2 + 402 + k :=
    ⟨(-d.exponent).toNat - (d.digits.log2 + 402), by omega⟩
  have hdigits : d.digits < 2 ^ (d.digits.log2 + 1) := Nat.lt_log2_self
  calc 2 * (d.digits * unitsPerOne)
      < 2 * (2 ^ (d.digits.log2 + 1) * unitsPerOne) := by
        have := Nat.mul_lt_mul_of_pos_right hdigits unitsPerOne_pos
        omega
    _ = 2 ^ (d.digits.log2 + 2 + unitExponent) := by
        rw [unitsPerOne_eq]
        ring
    _ ≤ 2 ^ (3 * (d.digits.log2 + 402 + k)) := by
        apply Nat.pow_le_pow_right (by decide)
        rw [unitExponent_eq]
        omega
    _ ≤ 10 ^ (d.digits.log2 + 402 + k) := by
        rw [Nat.pow_mul]
        exact Nat.pow_le_pow_left (by decide) _
    _ = d.denominator := by rw [denominator, hk]

/-- **Reading a decimal is one rounding of its value.** -/
theorem ofDecimal_eq (negative : Bool) (d : Decimal) :
    ofDecimal negative d = ofQuotient negative d.numerator d.denominator := by
  unfold ofDecimal
  split_ifs with hzero hlarge hsmall hnonneg
  · rw [numerator, hzero, Nat.zero_mul]
    exact (ofQuotient_eq_zero negative (by simpa using d.denominator_pos)).symm
  · rw [denominator, show (-d.exponent).toNat = 0 by omega, Nat.pow_zero]
    exact (ofDecimal_of_large hzero hlarge).symm
  · rw [numerator, show d.exponent.toNat = 0 by omega, Nat.pow_zero, Nat.mul_one]
    exact (ofDecimal_of_small hsmall).symm
  · rw [denominator, show (-d.exponent).toNat = 0 by omega, Nat.pow_zero]
    rfl
  · rw [numerator, show d.exponent.toNat = 0 by omega, Nat.pow_zero, Nat.mul_one]
    rfl

theorem ofDecimal_trim (negative : Bool) (d : Decimal) :
    ofDecimal negative d.trim = ofDecimal negative d := by
  rw [ofDecimal_eq, ofDecimal_eq]
  exact ofQuotient_eq_of_mul_eq negative d.trim.denominator_pos d.denominator_pos (trim_mul_eq d)

/-! ## The shortest decimal -/

theorem ofDecimal_exactDecimal (negative : Bool) {m s : Nat} (h : Canonical m s) :
    ofDecimal negative (exactDecimal m s) = .finite negative m s h := by
  rw [ofDecimal_eq, ← ofQuotient_exact negative h]
  apply ofQuotient_eq_of_mul_eq negative (denominator_pos _) unitsPerOne_pos
  unfold exactDecimal numerator denominator
  simp only [Nat.pow_eq, Int.toNat_neg_natCast, neg_neg, Int.toNat_natCast, Nat.pow_zero,
    Nat.mul_one]
  rw [unitsPerOne_eq, show (10 : Nat) = 5 * 2 from rfl, Nat.mul_pow, Nat.mul_assoc]

/-- **The shortest decimal of a double reads back as the double.** -/
theorem ofDecimal_shortest {m s : Nat} (h : Canonical m s) :
    ofDecimal false (shortest m s) = .finite false m s h := by
  unfold shortest
  rw [ofDecimal_trim]
  generalize hfind : List.find? _ _ = found
  cases found with
  | none => exact ofDecimal_exactDecimal false h
  | some d =>
    have hd := List.find?_some hfind
    rw [pack_of_canonical h] at hd
    simpa using hd

end Double

/-! ## Plain notation -/

namespace Decimal

/-- Below a power of ten, plain notation is two runs of digits around a point. -/
theorem positional_of_neg {d : Decimal} (h : d.exponent < 0) :
    ∃ whole fraction : List Char, d.positional = whole ++ '.' :: fraction ∧ whole ≠ [] ∧
      fraction ≠ [] ∧ (∀ c ∈ whole ++ fraction, c.isDigit = true) ∧
      ofParts whole fraction 0 = d := by
  obtain ⟨digits, exponent⟩ := d
  simp only at h
  unfold positional
  rw [if_neg (by simpa using h)]
  simp only
  set places := (-exponent).toNat with hplaces
  set run := Nat.toDigits 10 digits with hrun
  set padded := List.replicate (places + 1 - run.length) '0' ++ run with hpadded
  have hlen : places + 1 ≤ padded.length := by
    rw [hpadded, List.length_append, List.length_replicate]
    omega
  have hdigit : ∀ c ∈ padded, c.isDigit = true := by
    intro c hc
    rcases List.mem_append.1 hc with hc | hc
    · rw [(List.mem_replicate.1 hc).2]
      decide
    · exact Nat.isDigit_of_mem_toDigits (by decide) (by decide) hc
  refine ⟨_, _, rfl, ?_, ?_, by rwa [List.take_append_drop], ?_⟩
  · rw [Ne, List.take_eq_nil_iff]
    rintro (h0 | h0)
    · omega
    · rw [h0, List.length_nil] at hlen
      omega
  · rw [Ne, List.drop_eq_nil_iff]
    omega
  · have hvalue : Nat.ofDigitChars 10 padded 0 = digits := by
      rw [hpadded, Nat.ofDigitChars_append, Nat.ofDigitChars_replicate_zero, Nat.mul_zero,
        hrun, Nat.ofDigitChars_ten_toDigits]
    unfold ofParts
    rw [List.take_append_drop, hvalue, List.length_drop]
    congr 1
    omega

end Decimal

end Criteria
