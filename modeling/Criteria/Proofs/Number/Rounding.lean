import Criteria.Number.Double
import Mathlib.Tactic.Ring

/-!
# Rounding quotients to doubles

`Double.ofQuotient` depends on the value of the quotient only (`ofQuotient_eq_of_mul_eq`), and does
not change a value that a double has (`ofQuotient_exact`). An integer rounds to a double with an
integral value (`dvd_of_units_ofQuotient_one`), and to a finite one only when it is small enough
(`mul_lt_of_isFinite_ofQuotient_one`).
-/

namespace Criteria.Double

/-! ## Rounding to a natural number -/

theorem roundDiv_mul_right (num den : Nat) {k : Nat} (hk : 0 < k) :
    roundDiv (num * k) (den * k) = roundDiv num den := by
  have hlt : ∀ a b : Nat, 2 * (a * k) < b * k ↔ 2 * a < b := fun a b => by
    rw [← Nat.mul_assoc]
    exact Nat.mul_lt_mul_right hk
  have hgt : ∀ a b : Nat, b * k < 2 * (a * k) ↔ b < 2 * a := fun a b => by
    rw [← Nat.mul_assoc]
    exact Nat.mul_lt_mul_right hk
  simp only [roundDiv, Nat.mul_div_mul_right _ _ hk, Nat.mul_mod_mul_right, hlt, hgt]

theorem roundDiv_mul_self (n : Nat) {den : Nat} (hd : 0 < den) : roundDiv (n * den) den = n := by
  simp [roundDiv, Nat.mul_div_cancel _ hd, hd]

theorem roundDiv_eq_zero {num den : Nat} (h : 2 * num < den) : roundDiv num den = 0 := by
  have hlt : num < den := by omega
  simp [roundDiv, Nat.div_eq_of_lt hlt, Nat.mod_eq_of_lt hlt, h]

/-! ## Packing -/

theorem pack_of_canonical {negative : Bool} {m s : Nat} (h : Canonical m s) :
    pack negative m s = .finite negative m s h := dif_pos h

theorem isFinite_pack {negative : Bool} {m s : Nat} :
    (pack negative m s).isFinite = true ↔ Canonical m s := by
  unfold pack
  split
  · rename_i hc
    exact iff_of_true rfl hc
  · rename_i hc
    exact iff_of_false Bool.false_ne_true hc

theorem isFinite_of_units? {d : Double} {u : Int} (h : d.units? = some u) : d.isFinite = true := by
  cases d with
  | finite => rfl
  | nan => cases h
  | infinite => cases h

theorem canonical_iff {m s : Nat} :
    Canonical m s ↔ m < 2 ^ 53 ∧ s ≤ maxScale ∧ (s = 0 ∨ 2 ^ 52 ≤ m) := Iff.rfl

/-! ## Quotients -/

theorem unitExponent_eq : unitExponent = 1074 := by
  unfold unitExponent
  rfl

theorem maxScale_eq : maxScale = 2045 := by
  unfold maxScale
  rfl

theorem unitsPerOne_eq : unitsPerOne = 2 ^ unitExponent := rfl

theorem unitsPerOne_pos : 0 < unitsPerOne := Nat.two_pow_pos _

/-- The scale at which a quotient is rounded. -/
def roundingScale (num den : Nat) : Nat := (num * unitsPerOne / den).log2 - 52

/-- The significand to which a quotient is rounded, before a carry. -/
def roundedSignificand (num den : Nat) : Nat :=
  roundDiv (num * unitsPerOne) (den * 2 ^ roundingScale num den)

theorem ofQuotient_eq (negative : Bool) (num den : Nat) :
    ofQuotient negative num den =
      if roundedSignificand num den = 2 ^ 53 then
        pack negative (2 ^ 52) (roundingScale num den + 1)
      else pack negative (roundedSignificand num den) (roundingScale num den) := rfl

theorem ofQuotient_mul_right (negative : Bool) (num den : Nat) {k : Nat} (hk : 0 < k) :
    ofQuotient negative (num * k) (den * k) = ofQuotient negative num den := by
  have hscale : roundingScale (num * k) (den * k) = roundingScale num den := by
    unfold roundingScale
    rw [Nat.mul_right_comm, Nat.mul_div_mul_right _ _ hk]
  have hsig : roundedSignificand (num * k) (den * k) = roundedSignificand num den := by
    unfold roundedSignificand
    rw [hscale, Nat.mul_right_comm, Nat.mul_right_comm den, roundDiv_mul_right _ _ hk]
  rw [ofQuotient_eq, ofQuotient_eq, hscale, hsig]

/-- **The rounding of a quotient depends on its value only.** -/
theorem ofQuotient_eq_of_mul_eq (negative : Bool) {num den num' den' : Nat} (hd : 0 < den)
    (hd' : 0 < den') (h : num * den' = num' * den) :
    ofQuotient negative num den = ofQuotient negative num' den' := by
  rw [← ofQuotient_mul_right negative num den hd', ← ofQuotient_mul_right negative num' den' hd, h,
    Nat.mul_comm den]

/-- A quotient that rounds to a finite double rounds to a multiple of its scale. -/
theorem units_of_isFinite_ofQuotient {num den : Nat}
    (h : (ofQuotient false num den).isFinite = true) :
    (ofQuotient false num den).units? =
        some (roundedSignificand num den * 2 ^ roundingScale num den : Nat) ∧
      roundingScale num den ≤ maxScale := by
  rw [ofQuotient_eq] at h ⊢
  split at h
  · rename_i hcarry
    have hc := isFinite_pack.1 h
    have hle := hc.2.1
    rw [if_pos hcarry, pack_of_canonical hc, hcarry]
    refine ⟨?_, by omega⟩
    simp only [units?, Bool.false_eq_true, if_false, Nat.pow_eq]
    congr 2
    ring
  · rename_i hcarry
    have hc := isFinite_pack.1 h
    rw [if_neg hcarry, pack_of_canonical hc]
    exact ⟨rfl, hc.2.1⟩

theorem isFinite_ofQuotient (negative : Bool) (num den : Nat) :
    (ofQuotient negative num den).isFinite = (ofQuotient false num den).isFinite := by
  have hpack : ∀ m s, (pack negative m s).isFinite = (pack false m s).isFinite := fun m s => by
    rw [Bool.eq_iff_iff, isFinite_pack, isFinite_pack]
  rw [ofQuotient_eq, ofQuotient_eq]
  split <;> exact hpack _ _

theorem ofQuotient_eq_infinite {negative : Bool} {num den : Nat}
    (h : (ofQuotient negative num den).isFinite = false) :
    ofQuotient negative num den = .infinite negative := by
  rw [ofQuotient_eq] at h ⊢
  unfold pack at h ⊢
  split_ifs at h ⊢ <;> first | rfl | cases h

/-- A quotient of less than half a unit rounds to zero. -/
theorem ofQuotient_eq_zero (negative : Bool) {num den : Nat}
    (h : 2 * (num * unitsPerOne) < den) : ofQuotient negative num den = zero negative := by
  have hdiv : num * unitsPerOne / den = 0 := Nat.div_eq_of_lt (by omega)
  have hscale : roundingScale num den = 0 := by
    unfold roundingScale
    rw [hdiv]
    rfl
  have hsig : roundedSignificand num den = 0 := by
    unfold roundedSignificand
    rw [hscale, Nat.pow_zero, Nat.mul_one]
    exact roundDiv_eq_zero h
  rw [ofQuotient_eq, hscale, hsig, if_neg (by decide)]
  exact pack_of_canonical _

theorem log2_mul_two_pow {m s : Nat} (hm : 2 ^ 52 ≤ m) (hlt : m < 2 ^ 53) :
    (m * 2 ^ s).log2 = 52 + s := by
  have hpos : 0 < m * 2 ^ s := Nat.mul_pos (by omega) (Nat.two_pow_pos s)
  rw [Nat.log2_eq_iff hpos.ne']
  constructor
  · rw [Nat.pow_add]
    exact Nat.mul_le_mul_right _ hm
  · rw [show 52 + s + 1 = 53 + s by omega, Nat.pow_add]
    exact Nat.mul_lt_mul_of_pos_right hlt (Nat.two_pow_pos s)

/-- **A value that a double has rounds to that double.** -/
theorem ofQuotient_exact (negative : Bool) {m s : Nat} (h : Canonical m s) :
    ofQuotient negative (m * 2 ^ s) unitsPerOne = .finite negative m s h := by
  obtain ⟨hlt, -, hnormal⟩ := canonical_iff.1 h
  have hscale : roundingScale (m * 2 ^ s) unitsPerOne = s := by
    unfold roundingScale
    rw [Nat.mul_div_cancel _ unitsPerOne_pos]
    rcases hnormal with rfl | hm
    · rcases Nat.eq_zero_or_pos m with rfl | hm
      · rfl
      · have : m.log2 < 53 := (Nat.log2_lt hm.ne').2 hlt
        rw [Nat.pow_zero, Nat.mul_one]
        omega
    · rw [log2_mul_two_pow hm hlt]
      omega
  have hsig : roundedSignificand (m * 2 ^ s) unitsPerOne = m := by
    unfold roundedSignificand
    rw [hscale, Nat.mul_assoc, Nat.mul_comm (2 ^ s)]
    exact roundDiv_mul_self m (Nat.mul_pos unitsPerOne_pos (Nat.two_pow_pos s))
  rw [ofQuotient_eq, hscale, hsig, if_neg (by omega), pack_of_canonical h]

/-! ## Integers -/

/-- An integer rounds to a double with an integral value. -/
theorem dvd_of_units_ofQuotient_one {n : Nat} {u : Int}
    (h : (ofQuotient false n 1).units? = some u) : (unitsPerOne : Int) ∣ u := by
  rw [(units_of_isFinite_ofQuotient (isFinite_of_units? h)).1] at h
  obtain rfl := Option.some.inj h
  rw [Int.natCast_dvd_natCast]
  rcases Nat.le_total unitExponent (roundingScale n 1) with hle | hle
  · rw [unitsPerOne_eq]
    exact Dvd.dvd.mul_left (Nat.pow_dvd_pow 2 hle) _
  · -- below this scale nothing is lost in rounding
    obtain ⟨k, hk⟩ := Nat.exists_eq_add_of_le hle
    have hsplit : n * unitsPerOne = n * 2 ^ k * 2 ^ roundingScale n 1 := by
      rw [unitsPerOne_eq, hk, Nat.mul_assoc, ← Nat.pow_add, Nat.add_comm k]
    have hsig : roundedSignificand n 1 = n * 2 ^ k := by
      unfold roundedSignificand
      rw [hsplit, Nat.one_mul]
      exact roundDiv_mul_self _ (Nat.two_pow_pos _)
    rw [hsig, ← hsplit]
    exact Nat.dvd_mul_left _ _

/-- Integers that round to finite doubles are at most as large as these. -/
theorem mul_lt_of_isFinite_ofQuotient_one {n : Nat}
    (h : (ofQuotient false n 1).isFinite = true) : n * unitsPerOne < 2 ^ (maxScale + 53) := by
  obtain ⟨-, hscale⟩ := units_of_isFinite_ofQuotient h
  unfold roundingScale at hscale
  rw [Nat.div_one] at hscale
  rcases Nat.eq_zero_or_pos n with rfl | hn
  · rw [Nat.zero_mul]
    exact Nat.two_pow_pos _
  · have hpos : 0 < n * unitsPerOne := Nat.mul_pos hn unitsPerOne_pos
    exact (Nat.log2_lt hpos.ne').1 (by omega)

end Criteria.Double
