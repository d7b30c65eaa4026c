import Criteria.Number.Shortest
import Criteria.Proofs.Number.Nearest
import Criteria.Proofs.Number.Value
import Mathlib.Algebra.Order.Group.Pointwise.Interval
import Mathlib.Tactic.Linarith

/-!
# The shortest decimal is the shortest

`Double.shortest` tries the two decimals of one digit around a double, then those of two digits, and
so on. Of all decimals that read back as the double, the one it finds has the fewest digits, and is
nearest among those with as few (`Double.isShortest_shortest`).

* What lies between two decimals that read back reads back (`Double.ofDecimal_eq_of_between`),
  because rounding keeps the order.
* A decimal does not lie strictly between two neighbours with as many digits
  (`Decimal.value_le_or_le`), so it suffices to try the neighbours of the double.
* What is closer to a double than one part in `2 ^ 54` reads back as it
  (`Double.ofDecimal_of_close`), so seventeen digits suffice.
-/

namespace Criteria

namespace Decimal

/-! ## Digits -/

/-- How many digits a decimal is written with. -/
def width (d : Decimal) : Nat := (Nat.toDigits 10 d.digits).length

theorem width_pos (d : Decimal) : 0 < d.width := List.length_pos_iff.2 Nat.toDigits_ne_nil

theorem width_le_iff {d : Decimal} {k : Nat} (hk : 0 < k) : d.width ≤ k ↔ d.digits < 10 ^ k :=
  Nat.length_toDigits_le_iff (by decide) hk

/-- A power of ten is a one and zeros. -/
theorem trailing_ten_pow (k : Nat) :
    ((Nat.toDigits 10 (10 ^ k)).reverse.takeWhile (· = '0')).length = k := by
  induction k with
  | zero => rfl
  | succ k ih =>
    have hten : 10 ≤ 10 ^ (k + 1) := Nat.le_mul_of_pos_left 10 (Nat.pow_pos (by decide))
    rw [Nat.toDigits_of_base_le (by decide) hten, Nat.pow_succ, Nat.mul_div_cancel _ (by decide),
      Nat.mul_mod_left, List.reverse_append]
    exact congrArg (· + 1) ih

theorem width_trim_le {d : Decimal} {k : Nat} (hk : 0 < k) (h : d.digits ≤ 10 ^ k) :
    d.trim.width ≤ k := by
  rw [width_le_iff hk]
  rcases h.lt_or_eq with hlt | heq
  · exact (Nat.div_le_self ..).trans_lt hlt
  · have hone : d.trim.digits = 1 := by
      simp only [trim]
      rw [heq, trailing_ten_pow, Nat.pow_eq, Nat.div_self (Nat.pow_pos (by decide))]
    rw [hone]
    exact Nat.one_lt_pow hk.ne' (by decide)

/-- **A decimal does not lie strictly between two neighbours with as many digits.** -/
theorem value_le_or_le {d : Decimal} {k below : Nat} (hk : 0 < k) (hd : d.width ≤ k)
    (hbelow : 10 ^ (k - 1) ≤ below) (e : Int) :
    d.value ≤ value ⟨below, e⟩ ∨ value ⟨below + 1, e⟩ ≤ d.value := by
  have hdigits := (width_le_iff hk).1 hd
  obtain ⟨digits, exponent⟩ := d
  rcases le_or_gt e exponent with hle | hlt
  · obtain ⟨j, rfl⟩ := Int.le.dest hle
    rw [← value_shift]
    exact (le_or_gt (digits * 10 ^ j) below).imp (value_mk_le · e) (value_mk_le · e)
  · -- a decimal with a smaller exponent is smaller than both
    obtain ⟨j, rfl⟩ := Int.le.dest hlt
    rw [add_assoc, ← Nat.cast_one, ← Nat.cast_add, ← value_shift]
    refine .inl (value_mk_le ?_ exponent)
    calc digits ≤ 10 ^ k := hdigits.le
      _ = 10 ^ (k - 1) * 10 ^ 1 := by rw [← Nat.pow_add, Nat.sub_add_cancel hk]
      _ ≤ below * 10 ^ (1 + j) :=
          Nat.mul_le_mul hbelow (Nat.pow_le_pow_right (by decide) (by omega))

end Decimal

namespace Double

open Decimal

/-! ## What rounds to a double -/

/-- The one normal form of a size may differ from a rounded quotient by a carry. -/
theorem normal_cases {m s m' s' : Nat} (h : Canonical m s) (hle : m' ≤ 2 ^ 53)
    (hnormal : 0 < s' → 2 ^ 52 ≤ m') (heq : m' * 2 ^ s' = m * 2 ^ s) :
    m' = m ∧ s' = s ∨ m' = 2 ^ 53 ∧ m = 2 ^ 52 ∧ s = s' + 1 := by
  obtain ⟨hlt, -, hs⟩ := canonical_iff.1 h
  rcases Nat.lt_trichotomy s' s with hss | rfl | hss
  · obtain ⟨k, rfl⟩ := Nat.exists_eq_add_of_lt hss
    rw [Nat.add_assoc, Nat.pow_add, Nat.mul_left_comm, Nat.mul_comm m'] at heq
    have hm' := Nat.eq_of_mul_eq_mul_left (Nat.two_pow_pos s') heq
    have hm := hs.resolve_left (by omega)
    have hk : k = 0 := by
      by_contra hk
      have hfour : 2 ^ 2 ≤ 2 ^ (k + 1) := Nat.pow_le_pow_right (by decide) (by omega)
      have := Nat.mul_le_mul hm hfour
      omega
    subst hk
    exact .inr ⟨by omega, by omega, rfl⟩
  · exact .inl ⟨Nat.eq_of_mul_eq_mul_right (Nat.two_pow_pos s') heq, rfl⟩
  · obtain ⟨k, rfl⟩ := Nat.exists_eq_add_of_lt hss
    rw [Nat.add_assoc, Nat.pow_add, Nat.mul_left_comm, Nat.mul_comm m] at heq
    have hm := Nat.eq_of_mul_eq_mul_left (Nat.two_pow_pos s) heq
    have htwo : 2 ^ 1 ≤ 2 ^ (k + 1) := Nat.pow_le_pow_right (by decide) (by omega)
    have := Nat.mul_le_mul (hnormal (by omega)) htwo
    omega

/-- **A quotient rounds to a double exactly when it has the rounded size of the double.** -/
theorem ofQuotient_eq_finite_iff {negative : Bool} {num den m s : Nat} (hden : 0 < den)
    (h : Canonical m s) : ofQuotient negative num den = .finite negative m s h ↔
      roundedSize (num * unitsPerOne) den = m * 2 ^ s := by
  have hle : roundedSignificand num den ≤ 2 ^ 53 := roundDiv_scale_le _ hden
  have hnormal : 0 < roundingScale num den → 2 ^ 52 ≤ roundedSignificand num den :=
    le_roundDiv_scale hden
  have hsize : roundedSize (num * unitsPerOne) den =
      roundedSignificand num den * 2 ^ roundingScale num den := rfl
  rw [hsize, ofQuotient_eq]
  generalize roundedSignificand num den = m' at *
  generalize roundingScale num den = s' at *
  constructor
  · intro hfinite
    split_ifs at hfinite with hcarry
    · unfold pack at hfinite
      split_ifs at hfinite
      obtain ⟨-, rfl, rfl⟩ := Double.finite.inj hfinite
      rw [hcarry, Nat.pow_succ' (n := s'), ← Nat.mul_assoc, ← Nat.pow_succ]
    · unfold pack at hfinite
      split_ifs at hfinite
      obtain ⟨-, rfl, rfl⟩ := Double.finite.inj hfinite
      rfl
  · intro heq
    rcases normal_cases h hle hnormal heq with ⟨rfl, rfl⟩ | ⟨hm', rfl, rfl⟩
    · rw [if_neg (canonical_iff.1 h).1.ne]
      exact pack_of_canonical h
    · rw [if_pos hm']
      exact pack_of_canonical h

/-- The size of the double that a decimal is read as, in units. -/
def sizeOfDecimal (d : Decimal) : Nat := roundedSize (d.numerator * unitsPerOne) d.denominator

theorem ofDecimal_eq_finite_iff {negative : Bool} {d : Decimal} {m s : Nat} (h : Canonical m s) :
    ofDecimal negative d = .finite negative m s h ↔ sizeOfDecimal d = m * 2 ^ s := by
  rw [ofDecimal_eq]
  exact ofQuotient_eq_finite_iff d.denominator_pos h

theorem sizeOfDecimal_mono {a b : Decimal} (h : a.value ≤ b.value) :
    sizeOfDecimal a ≤ sizeOfDecimal b := by
  refine roundedSize_mono a.denominator_pos b.denominator_pos ?_
  rw [Nat.mul_right_comm, Nat.mul_right_comm b.numerator]
  exact Nat.mul_le_mul_right _ (Decimal.value_le_iff.1 h)

/-- **What lies between two decimals that read back as a double reads back as it.** -/
theorem ofDecimal_eq_of_between {negative : Bool} {a x b : Decimal} {m s : Nat}
    {h : Canonical m s} (ha : ofDecimal negative a = .finite negative m s h)
    (hb : ofDecimal negative b = .finite negative m s h) (hax : a.value ≤ x.value)
    (hxb : x.value ≤ b.value) : ofDecimal negative x = .finite negative m s h := by
  rw [ofDecimal_eq_finite_iff] at *
  exact Nat.le_antisymm ((sizeOfDecimal_mono hxb).trans_eq hb)
    (ha.symm.trans_le (sizeOfDecimal_mono hax))

/-! ## The neighbours of a decimal -/

section Candidates

variable {exact x : Decimal} {places : Nat}

/-- The largest decimal of `places` digits that is not above a longer one. -/
def lower (exact : Decimal) (places : Nat) : Decimal :=
  ⟨exact.digits / 10 ^ (exact.width - places), exact.exponent + (exact.width - places : Nat)⟩

/-- The next decimal after that. -/
def upper (exact : Decimal) (places : Nat) : Decimal :=
  ⟨(lower exact places).digits + 1, (lower exact places).exponent⟩

/-- The lower neighbour misses what is left of the digits. -/
theorem value_sub_lower (exact : Decimal) (places : Nat) :
    exact.value - (lower exact places).value =
      (exact.digits % 10 ^ (exact.width - places) : Nat) * 10 ^ exact.exponent := by
  have hmod := Nat.div_add_mod' exact.digits (10 ^ (exact.width - places))
  rw [lower, ← value_shift, value, value, ← sub_mul, ← Nat.cast_sub (Nat.div_mul_le_self ..)]
  congr 2
  omega

theorem upper_sub_lower (exact : Decimal) (places : Nat) :
    (upper exact places).value - (lower exact places).value =
      (10 ^ (exact.width - places) : Nat) * 10 ^ exact.exponent := by
  rw [upper, lower, ← value_shift, ← value_shift, value, value, Nat.add_one_mul]
  push_cast
  ring

theorem lower_le (exact : Decimal) (places : Nat) : (lower exact places).value ≤ exact.value := by
  rw [← sub_nonneg, value_sub_lower]
  positivity

theorem le_upper (exact : Decimal) (places : Nat) : exact.value ≤ (upper exact places).value := by
  have hlt := Nat.mod_lt exact.digits (Nat.pow_pos (by decide) : 0 < 10 ^ (exact.width - places))
  have hle : exact.value - (lower exact places).value ≤
      (upper exact places).value - (lower exact places).value := by
    rw [value_sub_lower, upper_sub_lower]
    exact mul_le_mul_of_nonneg_right (Nat.cast_le.2 hlt.le) (by positivity)
  linarith

theorem candidates_of_le (h : exact.width ≤ places) : candidates exact places = [exact] := if_pos h

/-- The candidates are the two neighbours, nearer first. -/
theorem candidates_of_lt (h : places < exact.width) :
    candidates exact places = [lower exact places, upper exact places] ∧
        2 * (exact.value - (lower exact places).value) ≤
          (upper exact places).value - (lower exact places).value ∨
      candidates exact places = [upper exact places, lower exact places] ∧
        (upper exact places).value - (lower exact places).value ≤
          2 * (exact.value - (lower exact places).value) := by
  have hdef : candidates exact places =
      if 2 * (exact.digits % 10 ^ (exact.width - places)) < 10 ^ (exact.width - places) ∨
        2 * (exact.digits % 10 ^ (exact.width - places)) = 10 ^ (exact.width - places) ∧
          exact.digits / 10 ^ (exact.width - places) % 2 = 0
      then [lower exact places, upper exact places]
      else [upper exact places, lower exact places] := if_neg (Nat.not_le.2 h)
  have hpos : (0 : ℚ) ≤ 10 ^ exact.exponent := by positivity
  rw [hdef, value_sub_lower, upper_sub_lower, ← mul_assoc]
  split_ifs with hnear
  · refine .inl ⟨rfl, mul_le_mul_of_nonneg_right ?_ hpos⟩
    exact_mod_cast (show 2 * _ ≤ _ by omega)
  · refine .inr ⟨rfl, mul_le_mul_of_nonneg_right ?_ hpos⟩
    exact_mod_cast (show _ ≤ 2 * _ by omega)

theorem pow_le_lower (hplaces : 0 < places) (h : places < exact.width) :
    10 ^ (places - 1) ≤ (lower exact places).digits := by
  have hlt : ¬exact.width ≤ places - 1 + (exact.width - places) := by omega
  rw [width_le_iff (by omega), Nat.not_lt, Nat.pow_add] at hlt
  exact (Nat.le_div_iff_mul_le (Nat.pow_pos (by decide))).2 hlt

theorem lower_lt_pow (h : places < exact.width) : (lower exact places).digits < 10 ^ places := by
  refine (Nat.div_lt_iff_lt_mul (Nat.pow_pos (by decide))).2 ?_
  rw [← Nat.pow_add, ← width_le_iff (by omega)]
  omega

/-- Candidates are sorted by their distance. -/
theorem pairwise_candidates (exact : Decimal) (places : Nat) :
    (candidates exact places).Pairwise fun a b =>
      |a.value - exact.value| ≤ |b.value - exact.value| := by
  rcases Nat.lt_or_ge places exact.width with hlt | hle
  · have hlower := abs_sub_comm (lower exact places).value exact.value
    rw [abs_of_nonneg (sub_nonneg.2 (lower_le exact places))] at hlower
    have hupper := abs_of_nonneg (sub_nonneg.2 (le_upper exact places))
    rcases candidates_of_lt hlt with ⟨heq, hnear⟩ | ⟨heq, hnear⟩
    · rw [heq, List.pairwise_pair, hlower, hupper]
      linarith
    · rw [heq, List.pairwise_pair, hlower, hupper]
      linarith
  · rw [candidates_of_le hle]
    exact List.pairwise_singleton _ _

theorem mem_candidates {c : Decimal} (h : places < exact.width) :
    c ∈ candidates exact places ↔ c = lower exact places ∨ c = upper exact places := by
  rcases candidates_of_lt h with ⟨heq, -⟩ | ⟨heq, -⟩
  · rw [heq, List.mem_pair]
  · rw [heq, List.mem_pair, or_comm]

theorem digits_le_of_mem_candidates {c : Decimal} (hplaces : 0 < places)
    (hc : c ∈ candidates exact places) : c.digits ≤ 10 ^ places := by
  rcases Nat.lt_or_ge places exact.width with hlt | hle
  · have hlower := lower_lt_pow hlt
    rcases (mem_candidates hlt).1 hc with rfl | rfl
    · exact hlower.le
    · exact hlower
  · rw [candidates_of_le hle] at hc
    obtain rfl := List.mem_singleton.1 hc
    exact ((width_le_iff hplaces).1 hle).le

/-- On the way from a decimal with as few digits to the exact one stands a candidate. -/
theorem exists_candidate_between (hplaces : 0 < places) (hx : x.width ≤ places) :
    ∃ c ∈ candidates exact places, c.value ∈ Set.uIcc x.value exact.value := by
  rcases Nat.lt_or_ge places exact.width with hlt | hle
  · rcases value_le_or_le hplaces hx (pow_le_lower hplaces hlt) (lower exact places).exponent with
      hbelow | habove
    · exact ⟨_, (mem_candidates hlt).2 (.inl rfl), Set.mem_uIcc.2 (.inl ⟨hbelow, lower_le ..⟩)⟩
    · exact ⟨_, (mem_candidates hlt).2 (.inr rfl), Set.mem_uIcc.2 (.inr ⟨le_upper .., habove⟩)⟩
  · rw [candidates_of_le hle]
    exact ⟨exact, List.mem_singleton_self _, Set.right_mem_uIcc⟩

/-- The nearer candidate is as near as its digits allow. -/
theorem exists_candidate_near (hplaces : 0 < places) :
    ∃ c ∈ candidates exact places,
      2 * 10 ^ (places - 1) * |c.value - exact.value| ≤ exact.value := by
  rcases Nat.lt_or_ge places exact.width with hlt | hle
  · -- the neighbours are apart by one of the last digit, and so many of these are in the decimal
    have hstep : 10 ^ (places - 1) * ((upper exact places).value - (lower exact places).value) ≤
        exact.value := by
      refine le_trans ?_ (lower_le exact places)
      rw [upper, value, value, ← sub_mul, ← mul_assoc]
      refine mul_le_mul_of_nonneg_right ?_ (by positivity)
      push_cast
      rw [add_sub_cancel_left, mul_one]
      exact_mod_cast pow_le_lower hplaces hlt
    have hpos : (0 : ℚ) ≤ 10 ^ (places - 1) := by positivity
    rcases candidates_of_lt hlt with ⟨heq, hnear⟩ | ⟨heq, hnear⟩
    · refine ⟨lower exact places, by simp [heq], le_trans ?_ hstep⟩
      rw [abs_sub_comm, abs_of_nonneg (sub_nonneg.2 (lower_le ..)), mul_assoc, mul_left_comm]
      exact mul_le_mul_of_nonneg_left hnear hpos
    · refine ⟨upper exact places, by simp [heq], le_trans ?_ hstep⟩
      rw [abs_of_nonneg (sub_nonneg.2 (le_upper ..)), mul_assoc, mul_left_comm]
      exact mul_le_mul_of_nonneg_left (by linarith) hpos
  · rw [candidates_of_le hle]
    refine ⟨exact, List.mem_singleton_self _, ?_⟩
    rw [sub_self, abs_zero, mul_zero]
    exact exact.value_nonneg

end Candidates

/-! ## The shortest decimal -/

/-- Of the decimals that read back as a double under a sign, this one has the fewest digits, and is
nearest to the double among those with as few. -/
structure IsShortest (negative : Bool) (x : Double) (d : Decimal) : Prop where
  reads_back : ofDecimal negative d = x
  fewest : ∀ d', ofDecimal negative d' = x → d.width ≤ d'.width
  nearest : ∀ d', ofDecimal negative d' = x → d'.width = d.width → ∀ v, x.value? = some v →
    |signed negative d - v| ≤ |signed negative d' - v|

section Shortest

variable {m s : Nat} {x : Decimal}

/-- What is nearer to a double than one part in `2 ^ 54` reads back as it. -/
theorem ofDecimal_of_close (negative : Bool) (h : Canonical m s)
    (hclose : 2 ^ 54 * |x.value - (exactDecimal m s).value| < (exactDecimal m s).value) :
    ofDecimal negative x = .finite negative m s h := by
  rw [ofDecimal_eq_finite_iff, sizeOfDecimal]
  have hden : (0 : ℚ) < x.denominator := Nat.cast_pos.2 x.denominator_pos
  have hone : (0 : ℚ) < unitsPerOne := Nat.cast_pos.2 unitsPerOne_pos
  have habove := (mul_le_mul_of_nonneg_left (le_abs_self _) (by positivity)).trans_lt hclose
  have hbelow := (mul_le_mul_of_nonneg_left (neg_le_abs _) (by positivity)).trans_lt hclose
  rw [value_exactDecimal, value_eq] at habove hbelow
  have habove' : (2 ^ 54 * x.numerator : ℚ) / x.denominator <
      (2 ^ 54 + 1) * (m * 2 ^ s : Nat) / unitsPerOne := by
    rw [mul_div_assoc, mul_div_assoc]
    linarith
  have hbelow' : (2 ^ 54 - 1) * (m * 2 ^ s : Nat) / unitsPerOne <
      (2 ^ 54 * x.numerator : ℚ) / x.denominator := by
    rw [mul_div_assoc, mul_div_assoc]
    linarith
  rw [div_lt_div_iff₀ hden hone] at habove'
  rw [div_lt_div_iff₀ hone hden] at hbelow'
  refine roundedSize_of_close x.denominator_pos (canonical_iff.1 h).1 ?_ ?_
  · rw [← @Nat.cast_lt ℚ]
    push_cast [Nat.cast_sub (show 1 ≤ 2 ^ 54 by norm_num)] at hbelow' ⊢
    linarith
  · rw [← @Nat.cast_lt ℚ]
    push_cast at habove' ⊢
    linarith

/-- **Some decimal of seventeen digits reads back.** -/
theorem exists_candidate_seventeen (negative : Bool) (h : Canonical m s) :
    ∃ c ∈ candidates (exactDecimal m s) 17, ofDecimal negative c = .finite negative m s h := by
  obtain ⟨c, hc, hnear⟩ := @exists_candidate_near (exactDecimal m s) 17 (by decide)
  refine ⟨c, hc, ?_⟩
  have hexact := ofDecimal_exactDecimal negative h
  have habs := abs_nonneg (c.value - (exactDecimal m s).value)
  rw [show (2 * 10 ^ (17 - 1) : ℚ) = 20000000000000000 by norm_num] at hnear
  rcases (exactDecimal m s).value_nonneg.eq_or_lt with hzero | hpos
  · have heq := sub_eq_zero.1 (abs_eq_zero.1 (habs.antisymm' (by linarith)))
    exact ofDecimal_eq_of_between hexact hexact heq.ge heq.le
  · exact ofDecimal_of_close negative h (by linarith)

/-- In a sorted list an element stands before another one, or is that one, or is after it. -/
theorem mem_or_rel_of_pairwise {α : Type} {R : α → α → Prop} {before after : List α} {a b : α}
    (hsorted : (before ++ a :: after).Pairwise R) (hb : b ∈ before ++ a :: after) :
    b ∈ before ∨ b = a ∨ R a b := by
  rw [List.pairwise_append, List.pairwise_cons] at hsorted
  rw [List.mem_append, List.mem_cons] at hb
  exact hb.imp_right (Or.imp_right (hsorted.2.1.1 b))

/-- Searching sorted lists one after the other finds the first element of the first of them that has
one. -/
theorem exists_of_find?_flatMap {α : Type} {R : α → α → Prop} {f : Nat → List α} {p : α → Bool}
    {all : List Nat} {c : α} (hall : all.Pairwise (· < ·)) (hf : ∀ n, (f n).Pairwise R)
    (hfind : (all.flatMap f).find? p = some c) : ∃ n ∈ all, c ∈ f n ∧
      (∀ k ∈ all, k < n → ∀ c' ∈ f k, ¬p c' = true) ∧ ∀ c' ∈ f n, p c' = true → c' = c ∨ R c c' := by
  rw [List.find?_flatMap] at hfind
  obtain ⟨fewer, n, more, rfl, hc, hfewer⟩ := List.findSome?_eq_some_iff.1 hfind
  refine ⟨n, by simp, List.mem_of_find?_eq_some hc, fun k hk hlt => ?_, fun c' hc' hp => ?_⟩
  · rcases mem_or_rel_of_pairwise hall hk with hk | rfl | hgt
    · exact List.find?_eq_none.1 (hfewer k hk)
    · exact absurd hlt (lt_irrefl _)
    · exact absurd hlt hgt.not_gt
  · obtain ⟨-, before, after, heq, hbefore⟩ := List.find?_eq_some_iff_append.1 hc
    have hsorted := hf n
    rw [heq] at hc' hsorted
    rcases mem_or_rel_of_pairwise hsorted hc' with hc' | hc'
    · exact absurd hp (by simpa using hbefore c' hc')
    · exact hc'

/-- The decimal that is found is a candidate with as few digits as possible, and the nearest such.
-/
theorem shortest_cases (h : Canonical m s) : ∃ places c, 0 < places ∧
    c ∈ candidates (exactDecimal m s) places ∧ shortest m s = c.trim ∧
    (∀ p, 0 < p → p < places → ∀ c' ∈ candidates (exactDecimal m s) p,
      ofDecimal false c' ≠ .finite false m s h) ∧
    ∀ c' ∈ candidates (exactDecimal m s) places, ofDecimal false c' = .finite false m s h →
      |c.value - (exactDecimal m s).value| ≤ |c'.value - (exactDecimal m s).value| := by
  obtain ⟨last, hlast, hreads⟩ := exists_candidate_seventeen false h
  have hall : ((List.range 17).map (· + 1)).Pairwise (· < ·) := by decide
  have hmem : ∀ p, p ∈ (List.range 17).map (· + 1) ↔ 0 < p ∧ p ≤ 17 := by
    intro p
    simp only [List.mem_map, List.mem_range]
    exact ⟨by rintro ⟨a, ha, rfl⟩; omega, fun hp => ⟨p - 1, by omega, by omega⟩⟩
  unfold shortest
  rw [pack_of_canonical h]
  simp only
  generalize (List.range 17).map (· + 1) = all at hall hmem ⊢
  cases hfind : (all.flatMap (candidates (exactDecimal m s))).find? fun d =>
      decide (ofDecimal false d = .finite false m s h) with
  | none =>
    have hnone := List.find?_eq_none.1 hfind last
      (List.mem_flatMap.2 ⟨17, (hmem 17).2 (by decide), hlast⟩)
    exact absurd (decide_eq_true hreads) hnone
  | some c =>
    obtain ⟨places, hplaces, hc, hfewer, hfirst⟩ :=
      exists_of_find?_flatMap hall (pairwise_candidates (exactDecimal m s)) hfind
    obtain ⟨hpos, hle⟩ := (hmem places).1 hplaces
    refine ⟨places, c, hpos, hc, rfl, fun p hp hlt c' hc' hreads' => ?_, fun c' hc' hreads' => ?_⟩
    · exact hfewer p ((hmem p).2 ⟨hp, hlt.le.trans hle⟩) hlt c' hc' (decide_eq_true hreads')
    · rcases hfirst c' hc' (decide_eq_true hreads') with rfl | hnear
      · exact le_rfl
      · exact hnear

/-- On the way from a decimal that reads back stands a candidate that does so, too. -/
theorem exists_candidate_of_reads_back {d : Decimal} {places : Nat} (h : Canonical m s)
    (hd : ofDecimal false d = .finite false m s h) (hplaces : d.width ≤ places) :
    ∃ c ∈ candidates (exactDecimal m s) places, ofDecimal false c = .finite false m s h ∧
      |c.value - (exactDecimal m s).value| ≤ |d.value - (exactDecimal m s).value| := by
  have hexact := ofDecimal_exactDecimal false h
  obtain ⟨c, hc, hmem⟩ := exists_candidate_between (d.width_pos.trans_le hplaces) hplaces
  refine ⟨c, hc, ?_, ?_⟩
  · rcases Set.mem_uIcc.1 hmem with ⟨hle, hge⟩ | ⟨hle, hge⟩
    · exact ofDecimal_eq_of_between hd hexact hle hge
    · exact ofDecimal_eq_of_between hexact hd hle hge
  · rw [abs_sub_comm, abs_sub_comm d.value]
    exact Set.abs_sub_right_of_mem_uIcc hmem

/-- **The shortest decimal of a double is the shortest that reads back as it**, under either sign. -/
theorem isShortest_shortest (negative : Bool) (h : Canonical m s) :
    IsShortest negative (.finite negative m s h) (shortest m s) := by
  have hsign : ∀ d, ofDecimal negative d = .finite negative m s h ↔
      ofDecimal false d = .finite false m s h := fun d => by
    rw [ofDecimal_eq_finite_iff, ofDecimal_eq_finite_iff]
  obtain ⟨places, c, hplaces, hc, hshortest, hfewer, hnear⟩ := shortest_cases h
  have hwidth : (shortest m s).width ≤ places := by
    rw [hshortest]
    exact width_trim_le hplaces (digits_le_of_mem_candidates hplaces hc)
  refine ⟨(hsign _).2 (ofDecimal_shortest h), fun d hd => ?_, fun d hd hdw v hv => ?_⟩
  · refine hwidth.trans (Nat.not_lt.1 fun hlt => ?_)
    obtain ⟨c', hc', hreads, -⟩ := exists_candidate_of_reads_back h ((hsign d).1 hd) le_rfl
    exact hfewer _ d.width_pos hlt c' hc' hreads
  · obtain ⟨c', hc', hreads, hle⟩ :=
      exists_candidate_of_reads_back h ((hsign d).1 hd) (hdw.trans_le hwidth)
    rw [value?_finite, Option.some.injEq] at hv
    rw [← hv, abs_signed_sub, abs_signed_sub, hshortest, value_trim]
    exact (hnear c' hc' hreads).trans hle

/-- The smallest positive double has a single digit, although it is exact only with 751. -/
example : shortest 1 0 = ⟨5, -324⟩ ∧ (exactDecimal 1 0).width = 751 := by decide +kernel

end Shortest

end Double

end Criteria
