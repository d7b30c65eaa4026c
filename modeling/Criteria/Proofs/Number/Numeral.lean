import Criteria.Expr.Parser
import Criteria.Expr.Text
import Criteria.Proofs.Expr.WellFormed
import Criteria.Proofs.Json.Exact
import Criteria.Proofs.Number.Decimal
import Mathlib.Data.List.TakeWhile

/-!
# Reading numerals back

The canonical text of a number is digits, or digits around a point (`Scalar.isNumeral_text`), and it
is read as the same number in its exact form (`Scalar.numeral?_text`): an integral double comes back
as the integer.
-/

namespace Criteria

open Criteria.Expr (numeral?)

/-! ## Numerals -/

/-- Digits, or digits around a point. -/
inductive IsNumeral : List Char → Prop
  | whole {run : List Char} (hne : run ≠ []) (hdigit : ∀ c ∈ run, c.isDigit = true) : IsNumeral run
  | point {whole fraction : List Char} (hwhole : whole ≠ []) (hfraction : fraction ≠ [])
      (hdigit : ∀ c ∈ whole ++ fraction, c.isDigit = true) : IsNumeral (whole ++ '.' :: fraction)

theorem splitDigits_digits {run : List Char} (h : ∀ c ∈ run, c.isDigit = true) :
    Decimal.splitDigits run = (run, []) := by
  rw [Decimal.splitDigits, List.takeWhile_eq_self_iff.2 h, List.dropWhile_eq_nil_iff.2 h]

theorem splitDigits_point {whole fraction : List Char} (h : ∀ c ∈ whole, c.isDigit = true) :
    Decimal.splitDigits (whole ++ '.' :: fraction) = (whole, '.' :: fraction) := by
  rw [Decimal.splitDigits, List.takeWhile_append_of_pos h, List.dropWhile_append_of_pos h]
  simp

theorem numeral?_digits {run : List Char} (h : ∀ c ∈ run, c.isDigit = true)
    (hlen : run.length ≤ maxIntDigits)
    (hfin : (Double.ofInt (Nat.ofDigitChars 10 run 0)).isFinite = true) :
    numeral? (String.ofList run) = some (.int (Nat.ofDigitChars 10 run 0)) := by
  simp only [numeral?, String.toList_ofList, splitDigits_digits h]
  rw [if_pos ⟨hlen, hfin⟩]

theorem numeral?_point {whole fraction : List Char} {d : Double}
    (h : ∀ c ∈ whole, c.isDigit = true)
    (hvalue : Double.ofDecimal false (Decimal.ofParts whole fraction 0) = d)
    (hfin : d.isFinite = true) :
    numeral? (String.ofList (whole ++ '.' :: fraction)) = some (.double d) := by
  simp only [numeral?, String.toList_ofList, splitDigits_point h, hvalue]
  rw [if_pos hfin]

/-! ## Integers -/

theorem toList_toString_natCast (n : Nat) : (toString (n : Int)).toList = Nat.toDigits 10 n :=
  Nat.toList_repr

/-- An integer in the range of doubles has few digits. -/
theorem length_toDigits_le {n : Nat} (h : (Double.ofInt n).isFinite = true) :
    (Nat.toDigits 10 n).length ≤ maxIntDigits := by
  have hlt : n < 2 ^ maxIntDigits := by
    have hsize := Double.mul_lt_of_isFinite_ofQuotient_one (n := n) h
    obtain ⟨k, hk, hle⟩ : ∃ k, Double.maxScale + 53 = k + Double.unitExponent ∧ k ≤ maxIntDigits :=
      ⟨Double.maxScale + 53 - Double.unitExponent, by
        rw [Double.maxScale_eq, Double.unitExponent_eq, maxIntDigits]
        omega⟩
    rw [hk, Nat.pow_add, ← Double.unitsPerOne_eq] at hsize
    exact (Nat.lt_of_mul_lt_mul_right hsize).trans_le (Nat.pow_le_pow_right (by decide) hle)
  refine (Nat.length_toDigits_le_iff (by decide) (by decide)).2 (hlt.trans_le ?_)
  exact Nat.pow_le_pow_left (by decide) _

theorem numeral?_toString {n : Int} (h : 0 ≤ n) (hfin : (Double.ofInt n).isFinite = true) :
    numeral? (toString n) = some (.int n) := by
  obtain ⟨m, rfl⟩ := Int.eq_ofNat_of_zero_le h
  have hdigit : ∀ c ∈ Nat.toDigits 10 m, c.isDigit = true := fun c hc =>
    Nat.isDigit_of_mem_toDigits (by decide) (by decide) hc
  have hvalue : Nat.ofDigitChars 10 (Nat.toDigits 10 m) 0 = m := Nat.ofDigitChars_ten_toDigits
  have hread := numeral?_digits hdigit (length_toDigits_le hfin) (by rwa [hvalue])
  rwa [hvalue, ← toList_toString_natCast, String.ofList_toList] at hread

theorem isNumeral_toString {n : Int} (h : 0 ≤ n) : IsNumeral (toString n).toList := by
  obtain ⟨m, rfl⟩ := Int.eq_ofNat_of_zero_le h
  rw [toList_toString_natCast]
  exact .whole Nat.toDigits_ne_nil fun c hc =>
    Nat.isDigit_of_mem_toDigits (by decide) (by decide) hc

/-! ## Doubles -/

namespace Double

/-- The integer that a double is equal to rounds to a double. -/
theorem isFinite_ofInt_of_toInt {d : Double} {n : Int} (h : d.toInt? = some n) :
    (ofInt n).isFinite = true := by
  rw [← eqInt_iff] at h
  cases d with
  | nan => cases h
  | infinite => cases h
  | finite negative m s hc =>
    have hsize : m * 2 ^ s = n.natAbs * unitsPerOne := by
      rw [eqInt, units_finite, beq_iff_eq, Option.some.injEq] at h
      have habs := congrArg Int.natAbs h
      rw [Int.natAbs_mul, Int.natAbs_natCast] at habs
      rw [← habs]
      split
      · rw [Int.natAbs_neg, Int.natAbs_natCast]
      · rw [Int.natAbs_natCast]
    have hround : ofQuotient false n.natAbs 1 = .finite false m s hc := by
      rw [← ofQuotient_exact false hc, hsize]
      exact ofQuotient_eq_of_mul_eq false Nat.one_pos unitsPerOne_pos (by rw [Nat.mul_one])
    rw [ofInt, isFinite_ofQuotient, hround]
    rfl

theorem toInt_nonneg {d : Double} {n u : Int} (hn : d.toInt? = some n) (hu : d.units? = some u)
    (h : 0 ≤ u) : 0 ≤ n := by
  have hpos : (0 : Int) < unitsPerOne := by exact_mod_cast unitsPerOne_pos
  rw [← eqInt_iff, eqInt, hu, beq_iff_eq, Option.some.injEq] at hn
  rw [hn] at h
  exact Int.le_of_mul_le_mul_right (by rwa [Int.zero_mul]) hpos

/-- The shortest decimal of a double that is not integral has digits below one. -/
theorem exponent_shortest_neg {negative : Bool} {m s : Nat} {h : Canonical m s}
    (hint : (Double.finite negative m s h).toInt? = none) : (shortest m s).exponent < 0 := by
  by_contra hnonneg
  have hread := ofDecimal_shortest h
  rw [ofDecimal_eq, Decimal.denominator, show (-(shortest m s).exponent).toNat = 0 by omega,
    Nat.pow_zero] at hread
  have hdvd := dvd_of_units_ofQuotient_one ((congrArg units? hread).trans (units_finite h))
  have hmod : ((if negative = true then -((m * 2 ^ s : Nat) : Int) else (m * 2 ^ s : Nat)) : Int) %
      unitsPerOne = 0 := by
    rw [if_neg Bool.false_ne_true] at hdvd
    split_ifs
    · exact Int.emod_eq_zero_of_dvd (Int.dvd_neg.2 hdvd)
    · exact Int.emod_eq_zero_of_dvd hdvd
  rw [toInt?, units_finite, Option.bind_eq_bind, Option.bind_some, if_pos hmod] at hint
  cases hint

theorem plain?_of_toInt {d : Double} {n : Int} (h : d.toInt? = some n) :
    d.plain? = some (toString n) := by
  cases d with
  | nan => cases h
  | infinite => cases h
  | finite => simp [plain?, h]

/-- A double that is not integral is written by its shortest decimal, digits around a point. -/
theorem plain?_of_not_int {negative : Bool} {m s : Nat} {h : Canonical m s}
    (hint : (Double.finite negative m s h).toInt? = none) :
    ∃ whole fraction : List Char,
      (Double.finite negative m s h).plain? = some (if negative = true
        then "-" ++ String.ofList (whole ++ '.' :: fraction)
        else String.ofList (whole ++ '.' :: fraction)) ∧
      whole ≠ [] ∧ fraction ≠ [] ∧ (∀ c ∈ whole ++ fraction, c.isDigit = true) ∧
      Decimal.ofParts whole fraction 0 = shortest m s := by
  obtain ⟨whole, fraction, htext, hrest⟩ := Decimal.positional_of_neg (exponent_shortest_neg hint)
  refine ⟨whole, fraction, ?_, hrest⟩
  simp only [plain?, hint, htext]

/-- One that is not negative either is read back from this text. -/
theorem exists_point_of_not_int {d : Double} {u : Int} (hint : d.toInt? = none)
    (hu : d.units? = some u) (h : 0 ≤ u) :
    ∃ whole fraction : List Char, d.plain? = some (String.ofList (whole ++ '.' :: fraction)) ∧
      whole ≠ [] ∧ fraction ≠ [] ∧ (∀ c ∈ whole ++ fraction, c.isDigit = true) ∧
      ofDecimal false (Decimal.ofParts whole fraction 0) = d := by
  cases d with
  | nan => cases hu
  | infinite => cases hu
  | finite negative m s hc =>
    obtain rfl : negative = false := by
      rw [← Bool.not_eq_true]
      rintro rfl
      rw [units_finite, if_pos rfl, Option.some.injEq] at hu
      have hzero : m * 2 ^ s = 0 := by omega
      obtain rfl : m = 0 := by simpa using hzero
      rw [toInt_finite_zero] at hint
      cases hint
    obtain ⟨whole, fraction, htext, hwhole, hfraction, hdigit, hparts⟩ := plain?_of_not_int hint
    refine ⟨whole, fraction, htext, hwhole, hfraction, hdigit, ?_⟩
    rw [hparts, ofDecimal_shortest hc]

end Double

/-! ## Literals -/

namespace Scalar

/-- The value is a number. -/
def IsNumber : Scalar → Prop
  | .int _ => True
  | .double _ => True
  | _ => False

theorem text_double_of_toInt {d : Double} {n : Int} (h : d.toInt? = some n) :
    (Scalar.double d).text = toString n := by
  rw [text, Double.plain?_of_toInt h, Option.getD_some]

/-- The text of a value is the text of its exact form. -/
theorem text_exact (v : Scalar) : v.exact.text = v.text := by
  cases v with
  | double d =>
    cases h : d.toInt? with
    | none => rw [exact_of_not_int h]
    | some n => rw [exact_of_toInt h, text_double_of_toInt h, text]
  | _ => rfl

/-- **The canonical text of a number is a numeral.** -/
theorem isNumeral_text {v : Scalar} (hv : v.WellFormed) (hnum : v.IsNumber) :
    IsNumeral v.text.toList := by
  cases v with
  | int n => exact isNumeral_toString hv.1
  | double d =>
    obtain ⟨u, hu, hnonneg⟩ := hv
    cases h : d.toInt? with
    | some n =>
      rw [text_double_of_toInt h]
      exact isNumeral_toString (Double.toInt_nonneg h hu hnonneg)
    | none =>
      obtain ⟨whole, fraction, htext, hwhole, hfraction, hdigit, -⟩ :=
        Double.exists_point_of_not_int h hu hnonneg
      rw [text, htext, Option.getD_some, String.toList_ofList]
      exact .point hwhole hfraction hdigit
  | null => cases hnum
  | bool => cases hnum
  | string => cases hnum

/-- **The canonical text of a number is read as the number in its exact form.** -/
theorem numeral?_text {v : Scalar} (hv : v.WellFormed) (hnum : v.IsNumber) :
    numeral? v.text = some v.exact := by
  cases v with
  | int n => exact numeral?_toString hv.1 hv.2
  | double d =>
    obtain ⟨u, hu, hnonneg⟩ := hv
    cases h : d.toInt? with
    | some n =>
      rw [text_double_of_toInt h, exact_of_toInt h]
      exact numeral?_toString (Double.toInt_nonneg h hu hnonneg) (Double.isFinite_ofInt_of_toInt h)
    | none =>
      obtain ⟨whole, fraction, htext, -, -, hdigit, hread⟩ :=
        Double.exists_point_of_not_int h hu hnonneg
      rw [text, htext, Option.getD_some, exact_of_not_int h]
      exact numeral?_point (fun c hc => hdigit c (List.mem_append_left _ hc)) hread
        (Double.isFinite_of_units? hu)
  | null => cases hnum
  | bool => cases hnum
  | string => cases hnum

/-- A number that a numeral denotes can be written. -/
theorem wellFormed_of_numeral? {text : String} {v : Scalar} (h : numeral? text = some v) :
    v.WellFormed := by
  simp only [numeral?] at h
  split at h
  · split_ifs at h with hfits
    obtain rfl := Option.some.inj h
    exact ⟨Int.natCast_nonneg _, hfits.2⟩
  · split_ifs at h with hfin
    obtain rfl := Option.some.inj h
    rw [Double.ofDecimal_eq] at hfin
    have hunits := (Double.units_of_isFinite_ofQuotient hfin).1
    rw [← Double.ofDecimal_eq] at hunits
    exact ⟨_, hunits, Int.natCast_nonneg _⟩

end Scalar

end Criteria
