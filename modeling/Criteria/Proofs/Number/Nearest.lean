import Criteria.Proofs.Json.Exact

/-!
# The nearest double

`Double.roundedSize` takes a quotient of units to the size of the nearest double, however large. It
keeps the order (`Double.roundedSize_mono`), and what is close enough to a size with 53 digits is
taken to it (`Double.roundedSize_of_close`).

`Double.nearest` does so for a count of units, with its sign. It keeps the order
(`Double.nearest_mono`), and it keeps the counts that are those of doubles (`Double.nearest_of_rank`),
those of infinities among them. The double of an integer is the nearest one (`Double.units_ofInt`),
which is the integer itself up to `2 ^ 53` (`Double.nearest_of_natAbs_le`).
-/

namespace Criteria.Double

/-! ## Sizes -/

theorem roundDiv_bounds (num den : Nat) :
    num / den ≤ roundDiv num den ∧ roundDiv num den ≤ num / den + 1 := by
  simp only [roundDiv]
  split
  · omega
  · split <;> omega

theorem roundDiv_mono {a b : Nat} (h : a ≤ b) (den : Nat) : roundDiv a den ≤ roundDiv b den := by
  rcases (Nat.div_le_div_right h : a / den ≤ b / den).lt_or_eq with hlt | heq
  · exact (roundDiv_bounds a den).2.trans (Nat.le_trans hlt (roundDiv_bounds b den).1)
  · -- with the same quotient, what is left over decides
    have hmod : a % den ≤ b % den := by
      have ha := Nat.div_add_mod a den
      have hb := Nat.div_add_mod b den
      rw [heq] at ha
      omega
    simp only [roundDiv, heq]
    generalize b / den = q
    split <;> split <;> (try split) <;> (try split) <;> omega

/-- The size of the nearest double, in units. -/
def nearestSize (u : Nat) : Nat := roundDiv u (2 ^ (u.log2 - 52)) * 2 ^ (u.log2 - 52)

theorem lt_of_log2 (u : Nat) : u < 2 ^ 53 * 2 ^ (u.log2 - 52) := by
  rw [← Nat.pow_add]
  rcases Nat.eq_zero_or_pos u with rfl | hpos
  · exact Nat.two_pow_pos _
  · exact (Nat.log2_lt hpos.ne').1 (by omega)

theorem le_of_log2 {u : Nat} (h : 0 < u.log2 - 52) : 2 ^ 52 * 2 ^ (u.log2 - 52) ≤ u := by
  have hne : u ≠ 0 := by
    rintro rfl
    exact absurd h (by decide)
  rw [← Nat.pow_add]
  exact (Nat.le_log2 hne).1 (by omega)

theorem log2_mono {u v : Nat} (h : u ≤ v) : u.log2 ≤ v.log2 := by
  rcases Nat.eq_zero_or_pos u with rfl | hu
  · exact Nat.zero_le _
  · exact (Nat.le_log2 (hu.trans_le h).ne').2 (((Nat.le_log2 hu.ne').1 (Nat.le_refl _)).trans h)

/-- The size of the double nearest to a quotient of units. -/
def roundedSize (u den : Nat) : Nat :=
  roundDiv u (den * 2 ^ ((u / den).log2 - 52)) * 2 ^ ((u / den).log2 - 52)

theorem roundedSize_one (u : Nat) : roundedSize u 1 = nearestSize u := by
  rw [roundedSize, nearestSize, Nat.div_one, Nat.one_mul]

theorem roundedSize_mul_right (u den : Nat) {k : Nat} (hk : 0 < k) :
    roundedSize (u * k) (den * k) = roundedSize u den := by
  unfold roundedSize
  rw [Nat.mul_div_mul_right _ _ hk, Nat.mul_right_comm, roundDiv_mul_right _ _ hk]

section Quotients

variable {u v den : Nat}

theorem lt_of_scale (u : Nat) (hden : 0 < den) :
    u < 2 ^ 53 * (den * 2 ^ ((u / den).log2 - 52)) := by
  have hlt := (Nat.div_lt_iff_lt_mul hden).1 (lt_of_log2 (u / den))
  rwa [Nat.mul_assoc, Nat.mul_comm (2 ^ _) den] at hlt

theorem le_of_scale (hden : 0 < den) (h : 0 < (u / den).log2 - 52) :
    2 ^ 52 * (den * 2 ^ ((u / den).log2 - 52)) ≤ u := by
  have hle := (Nat.le_div_iff_mul_le hden).1 (le_of_log2 h)
  rwa [Nat.mul_assoc, Nat.mul_comm (2 ^ _) den] at hle

/-- A quotient is rounded to at most 53 digits, but for a carry. -/
theorem roundDiv_scale_le (u : Nat) (hden : 0 < den) :
    roundDiv u (den * 2 ^ ((u / den).log2 - 52)) ≤ 2 ^ 53 := by
  have hpos := Nat.mul_pos hden (Nat.two_pow_pos ((u / den).log2 - 52))
  exact (roundDiv_mono (lt_of_scale u hden).le _).trans_eq (roundDiv_mul_self _ hpos)

/-- Above the lowest scale a quotient is rounded to no fewer than 53 digits. -/
theorem le_roundDiv_scale (hden : 0 < den) (h : 0 < (u / den).log2 - 52) :
    2 ^ 52 ≤ roundDiv u (den * 2 ^ ((u / den).log2 - 52)) := by
  have hpos := Nat.mul_pos hden (Nat.two_pow_pos ((u / den).log2 - 52))
  exact (roundDiv_mul_self _ hpos).symm.trans_le (roundDiv_mono (le_of_scale hden h) _)

theorem roundedSize_mono_left (hden : 0 < den) (h : u ≤ v) :
    roundedSize u den ≤ roundedSize v den := by
  have hscale : (u / den).log2 - 52 ≤ (v / den).log2 - 52 :=
    Nat.sub_le_sub_right (log2_mono (Nat.div_le_div_right h)) 52
  have hu := roundDiv_scale_le u hden
  have hv := @le_roundDiv_scale v den hden
  unfold roundedSize
  generalize (u / den).log2 - 52 = s at *
  generalize (v / den).log2 - 52 = t at *
  rcases hscale.lt_or_eq with hlt | rfl
  · -- the smaller one stays below the power of two at which the scale of the larger one starts
    calc roundDiv u (den * 2 ^ s) * 2 ^ s ≤ 2 ^ 53 * 2 ^ s := Nat.mul_le_mul_right _ hu
      _ ≤ 2 ^ 52 * 2 ^ t := by
          rw [← Nat.pow_add, ← Nat.pow_add]
          exact Nat.pow_le_pow_right (by decide) (by omega)
      _ ≤ roundDiv v (den * 2 ^ t) * 2 ^ t := Nat.mul_le_mul_right _ (hv (by omega))
  · exact Nat.mul_le_mul_right _ (roundDiv_mono h _)

/-- **Rounding keeps the order of quotients.** -/
theorem roundedSize_mono {den' : Nat} (hden : 0 < den) (hden' : 0 < den')
    (h : u * den' ≤ v * den) : roundedSize u den ≤ roundedSize v den' := by
  rw [← roundedSize_mul_right u den hden', ← roundedSize_mul_right v den' hden,
    Nat.mul_comm den']
  exact roundedSize_mono_left (Nat.mul_pos hden hden') h

/-- **Rounding keeps the order of sizes.** -/
theorem nearestSize_mono (h : u ≤ v) : nearestSize u ≤ nearestSize v := by
  rw [← roundedSize_one, ← roundedSize_one]
  exact roundedSize_mono_left Nat.one_pos h

/-- What is closer to a multiple than half a step is rounded to it. -/
theorem roundDiv_of_close {u q den : Nat} (hle : 2 * (q * den) < 2 * u + den)
    (hge : 2 * u < 2 * (q * den) + den) : roundDiv u den = q := by
  have hdiv := Nat.div_add_mod u den
  have hmod := Nat.mod_lt u (show 0 < den by omega)
  rcases Nat.lt_or_ge u (q * den) with hlt | hge'
  · -- just below the multiple the quotient is one less
    obtain ⟨p, rfl⟩ : ∃ p, q = p + 1 := Nat.exists_eq_succ_of_ne_zero (by rintro rfl; omega)
    have hsucc := Nat.add_one_mul p den
    have hquot : u / den = p := Nat.div_eq_of_lt_le (by omega) hlt
    rw [hquot, Nat.mul_comm] at hdiv
    simp only [roundDiv, hquot]
    rw [if_neg (by omega), if_pos (by omega)]
  · have hquot : u / den = q := Nat.div_eq_of_lt_le hge' (by rw [Nat.add_one_mul]; omega)
    rw [hquot, Nat.mul_comm] at hdiv
    simp only [roundDiv, hquot]
    rw [if_pos (by omega)]

/-- A quotient that differs from a size of 53 digits by less than one part in `2 ^ 54` is rounded to
that size. -/
theorem roundedSize_of_close {u den m s : Nat} (hden : 0 < den) (hm : m < 2 ^ 53)
    (hbelow : (2 ^ 54 - 1) * (m * 2 ^ s * den) < 2 ^ 54 * u)
    (habove : 2 ^ 54 * u < (2 ^ 54 + 1) * (m * 2 ^ s * den)) :
    roundedSize u den = m * 2 ^ s := by
  have hlt := lt_of_scale u hden
  have hge := @le_of_scale u den hden
  have hpos := Nat.mul_pos hden (Nat.two_pow_pos ((u / den).log2 - 52))
  unfold roundedSize
  generalize (u / den).log2 - 52 = t at *
  -- the scale is not above that of the size, which therefore is a multiple of the step
  have hts : t ≤ s := by
    by_contra hts
    obtain ⟨k, rfl⟩ := Nat.exists_eq_add_of_lt (Nat.lt_of_not_le hts)
    have hstep : den * 2 ^ s * 2 ≤ den * 2 ^ (s + k + 1) := by
      rw [Nat.mul_assoc, ← Nat.pow_succ]
      exact Nat.mul_le_mul_left _ (Nat.pow_le_pow_right (by decide) (by omega))
    have hsize : m * 2 ^ s * den + den * 2 ^ s ≤ 2 ^ 53 * (den * 2 ^ s) := by
      rw [Nat.mul_assoc, Nat.mul_comm (2 ^ s), ← Nat.add_one_mul]
      exact Nat.mul_le_mul_right _ hm
    have := hge (by omega)
    omega
  obtain ⟨k, rfl⟩ := Nat.exists_eq_add_of_le hts
  have hsize : m * 2 ^ (t + k) = m * 2 ^ k * 2 ^ t := by
    rw [Nat.add_comm, Nat.pow_add, Nat.mul_assoc]
  rw [hsize, Nat.mul_assoc, Nat.mul_comm (2 ^ t)] at hbelow habove
  rw [hsize]
  generalize m * 2 ^ k = q at *
  generalize den * 2 ^ t = step at *
  congr 1
  have hq : q ≤ 2 ^ 53 := by
    by_contra hq
    have hmul : (2 ^ 53 + 1) * step ≤ q * step := Nat.mul_le_mul_right _ (by omega)
    omega
  have hmul : q * step ≤ 2 ^ 53 * step := Nat.mul_le_mul_right _ hq
  exact roundDiv_of_close (by omega) (by omega)

end Quotients

theorem nearestSize_of_dvd {u : Nat} (h : 2 ^ (u.log2 - 52) ∣ u) : nearestSize u = u := by
  obtain ⟨k, hk⟩ := h
  unfold nearestSize
  generalize u.log2 - 52 = s at *
  rw [hk, Nat.mul_comm (2 ^ s), roundDiv_mul_self k (Nat.two_pow_pos s)]

/-- Multiples of a power of two are kept when they take at most 53 digits from it on. -/
theorem nearestSize_mul {m : Nat} (h : m ≤ 2 ^ 53) (s : Nat) :
    nearestSize (m * 2 ^ s) = m * 2 ^ s := by
  have hpow : m * 2 ^ s ≤ 2 ^ (53 + s) := by
    rw [Nat.pow_add]
    exact Nat.mul_le_mul_right _ h
  rcases h.lt_or_eq with hlt | rfl
  · refine nearestSize_of_dvd ((Nat.pow_dvd_pow 2 ?_).trans (Nat.dvd_mul_left ..))
    rcases Nat.eq_zero_or_pos m with rfl | hm
    · rw [Nat.zero_mul]
      exact Nat.zero_le _
    · have hlog : (m * 2 ^ s).log2 < 53 + s := by
        rw [Nat.log2_lt (Nat.mul_pos hm (Nat.two_pow_pos s)).ne', Nat.pow_add]
        exact Nat.mul_lt_mul_of_pos_right hlt (Nat.two_pow_pos s)
      omega
  · rw [← Nat.pow_add]
    refine nearestSize_of_dvd (Nat.pow_dvd_pow 2 ?_)
    rw [Nat.log2_two_pow]
    omega

/-- An integer rounds to the nearest double. -/
theorem units_ofQuotient_one {n : Nat} (h : (ofQuotient false n 1).isFinite = true) :
    (ofQuotient false n 1).units? = some ((nearestSize (n * unitsPerOne) : Nat) : Int) := by
  rw [(units_of_isFinite_ofQuotient h).1, roundedSignificand, roundingScale, Nat.div_one,
    Nat.one_mul]
  rfl

/-! ## Counts -/

/-- The count of units of the nearest double. -/
def nearest (u : Int) : Int :=
  if u < 0 then -(nearestSize u.natAbs : Nat) else (nearestSize u.natAbs : Nat)

/-- **Rounding keeps the order.** -/
theorem nearest_mono {u v : Int} (h : u ≤ v) : nearest u ≤ nearest v := by
  unfold nearest
  split
  · split
    · have hsize : nearestSize v.natAbs ≤ nearestSize u.natAbs := nearestSize_mono (by omega)
      omega
    · omega
  · split
    · omega
    · exact Int.ofNat_le.2 (nearestSize_mono (by omega))

theorem nearest_of_size {u : Int} (h : nearestSize u.natAbs = u.natAbs) : nearest u = u := by
  unfold nearest
  rw [h]
  split <;> omega

/-- A count with a sign. -/
theorem natAbs_signed (negative : Bool) (size : Nat) :
    (if negative = true then -(size : Int) else (size : Int)).natAbs = size := by
  cases negative
  · exact Int.natAbs_natCast size
  · exact (Int.natAbs_neg _).trans (Int.natAbs_natCast size)

/-- The place of a double is kept, also that of an infinity. -/
theorem nearest_of_rank {d : Double} {r : Int} (h : d.rank? = some r) : nearest r = r := by
  refine nearest_of_size ?_
  cases d with
  | nan => cases h
  | infinite negative =>
    rw [rank_infinite] at h
    obtain rfl := Option.some.inj h
    rw [natAbs_signed, Nat.add_comm, Nat.pow_add]
    exact nearestSize_mul (Nat.le_refl _) _
  | finite negative m s hc =>
    obtain rfl := Option.some.inj h
    rw [natAbs_signed]
    exact nearestSize_mul (canonical_iff.1 hc).1.le _

theorem units_pack (negative : Bool) (m s : Nat) :
    (pack negative m s).units? =
      (pack false m s).units?.map fun u => if negative = true then -u else u := by
  unfold pack
  split <;> rfl

theorem units_ofQuotient (negative : Bool) (num den : Nat) :
    (ofQuotient negative num den).units? =
      (ofQuotient false num den).units?.map fun u => if negative = true then -u else u := by
  rw [ofQuotient_eq, ofQuotient_eq]
  split <;> exact units_pack ..

/-- **The double of an integer is the nearest one.** -/
theorem units_ofInt {n : Int} (h : (ofInt n).isFinite = true) :
    (ofInt n).units? = some (nearest (n * unitsPerOne)) := by
  rw [ofInt, isFinite_ofQuotient] at h
  have hpos : (0 : Int) < unitsPerOne := Int.ofNat_lt.2 unitsPerOne_pos
  have hsign : n * unitsPerOne < 0 ↔ n < 0 := by
    refine ⟨fun hneg => Int.not_le.1 fun hle => ?_, fun hneg => Int.mul_neg_of_neg_of_pos hneg hpos⟩
    exact Int.not_le.2 hneg (Int.mul_nonneg hle hpos.le)
  rw [ofInt, units_ofQuotient, units_ofQuotient_one h, nearest, Int.natAbs_mul, Int.natAbs_natCast]
  simp only [Option.map_some, hsign, decide_eq_true_eq]

/-- An integer of at most `2 ^ 53` is its own double. -/
theorem nearest_of_natAbs_le {n : Int} (h : n.natAbs ≤ 2 ^ 53) :
    nearest (n * unitsPerOne) = n * unitsPerOne := by
  refine nearest_of_size ?_
  rw [Int.natAbs_mul, Int.natAbs_natCast, unitsPerOne_eq]
  exact nearestSize_mul h _

end Criteria.Double
