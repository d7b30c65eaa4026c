import Criteria.Proofs.Evaluation.Interpreter
import Criteria.Proofs.Number.Nearest
import Criteria.Proofs.Number.Numeral

/-!
# Comparing numbers

Equality compares numbers as they are, the orderings compare the doubles nearest to them. Rounding
keeps the order, so the two never contradict each other: what is less is really less, and what is
equal is neither less nor greater (`Evaluation.eval_compare_numbers`). But they need not cohere: of
two different numbers with the same nearest double none is less, and they are not equal
(`Evaluation.eval_compare_numbers_adjacent`). Only integers beyond `2 ^ 53` in size differ from
their doubles.
-/

namespace Criteria

/-! ## Values of numbers -/

namespace Scalar

/-- The value is a number other than NaN, with the double that orderings compare it by. -/
structure RoundsTo (a : Scalar) (x : Double) : Prop where
  number : a.IsNumber
  double : Value.scalarNumber a = .ok x
  ne_nan : x ≠ .nan

/-- The value of a number in units; an infinity has its place in the order of doubles. -/
def units? : Scalar → Option Int
  | .int n => some (n * Double.unitsPerOne)
  | .double d => d.rank?
  | _ => none

/-- The number is a double, or an integer of a size that all doubles up to it have. -/
def Small : Scalar → Prop
  | .int n => n.natAbs ≤ 2 ^ 53
  | _ => True

variable {a b : Scalar} {x y : Double} {u v : Int}

theorem ofInt_of_intNumber {n : Int} (h : Value.intNumber n = .ok x) :
    x = Double.ofInt n ∧ (Double.ofInt n).isFinite = true := by
  simp only [Value.intNumber] at h
  split at h
  · rename_i hfinite
    exact ⟨(Except.ok.inj h).symm, hfinite⟩
  · cases h

theorem RoundsTo.of_int {n : Int} (h : (Double.ofInt n).isFinite = true) :
    (Scalar.int n).RoundsTo (Double.ofInt n) where
  number := trivial
  double := by rw [Value.scalarNumber, Value.intNumber, if_pos h]
  ne_nan hnan := by
    rw [hnan] at h
    cases h

/-- **Orderings compare the double nearest to a number.** -/
theorem RoundsTo.exists_units (h : a.RoundsTo x) :
    ∃ u, a.units? = some u ∧ x.rank? = some (Double.nearest u) := by
  obtain ⟨hnumber, hdouble, hnan⟩ := h
  cases a with
  | int n =>
    obtain ⟨rfl, hfinite⟩ := ofInt_of_intNumber hdouble
    exact ⟨_, rfl, Double.rank_of_units (Double.units_ofInt hfinite)⟩
  | double d =>
    obtain rfl : d = x := Except.ok.inj hdouble
    cases hrank : d.rank? with
    | none => cases d <;> first | exact absurd rfl hnan | cases hrank
    | some r => exact ⟨r, hrank, by rw [Double.nearest_of_rank hrank]⟩
  | null => cases hnumber
  | bool => cases hnumber
  | string => cases hnumber

theorem nearest_of_small (hsmall : a.Small) (hu : a.units? = some u) : Double.nearest u = u := by
  cases a with
  | int n =>
    obtain rfl := Option.some.inj hu
    exact Double.nearest_of_natAbs_le hsmall
  | double d => exact Double.nearest_of_rank hu
  | _ => cases hu

/-- An integer equals a double of its value only. -/
theorem eqInt_iff_units {n : Int} {d : Double} (hn : (Scalar.int n).RoundsTo x)
    (hv : d.rank? = some v) : d.eqInt n = true ↔ n * Double.unitsPerOne = v := by
  rw [Double.eqInt, beq_iff_eq]
  cases d with
  | nan => cases hv
  | infinite negative =>
    refine iff_of_false (fun hunits => by cases hunits) ?_
    rintro rfl
    -- the double of the integer would stand where the infinity does
    obtain ⟨-, hfinite⟩ := ofInt_of_intNumber hn.double
    refine Double.rank_infinite_ne_units (Double.units_ofInt hfinite) (hv.trans ?_)
    rw [Double.nearest_of_rank hv]
  | finite negative m s hc =>
    have hunits : (Double.finite negative m s hc).units? = some v := hv
    rw [hunits, Option.some.injEq, eq_comm]

/-- **Numbers are equal when they have the same value.** -/
theorem same_iff_units (ha : a.RoundsTo x) (hb : b.RoundsTo y) (hu : a.units? = some u)
    (hv : b.units? = some v) : a.same b = true ↔ u = v := by
  cases a with
  | int n =>
    obtain rfl := Option.some.inj hu
    cases b with
    | int m =>
      obtain rfl := Option.some.inj hv
      have hpos : (Double.unitsPerOne : Int) ≠ 0 :=
        Int.natCast_ne_zero.2 Double.unitsPerOne_pos.ne'
      change decide (Scalar.int n = .int m) = true ↔ _
      rw [decide_eq_true_eq, Scalar.int.injEq, Int.mul_eq_mul_right_iff hpos]
    | double e => exact eqInt_iff_units ha hv
    | _ => cases hv
  | double d =>
    cases b with
    | int m =>
      obtain rfl := Option.some.inj hv
      exact (eqInt_iff_units hb hu).trans eq_comm
    | double e =>
      change d.numEq e = true ↔ _
      rw [Double.numEq_iff hu hv]
    | _ => cases hv
  | _ => cases hu

theorem compare_of_units (ha : a.RoundsTo x) (hb : b.RoundsTo y) (hu : a.units? = some u)
    (hv : b.units? = some v) :
    x.compare? y = some (compare (Double.nearest u) (Double.nearest v)) := by
  obtain ⟨u', hu', hx⟩ := ha.exists_units
  obtain ⟨v', hv', hy⟩ := hb.exists_units
  cases hu.symm.trans hu'
  cases hv.symm.trans hv'
  rw [Double.compare?, hx, hy]
  rfl

end Scalar

/-! ## Comparisons -/

namespace Comparison

/-- What a comparison says of two numbers with the given values. -/
def ofUnits (c : Comparison) (u v : Int) : Bool :=
  match c with
  | .eq => decide (u = v)
  | .ne => !decide (u = v)
  | .lt => decide (Double.nearest u < Double.nearest v)
  | .le => decide (Double.nearest u ≤ Double.nearest v)
  | .gt => decide (Double.nearest v < Double.nearest u)
  | .ge => decide (Double.nearest v ≤ Double.nearest u)

end Comparison

/-- Equality and the orderings cohere: exactly one of less, equal and greater holds, and the other
comparisons are put together from these. -/
structure Coherent (t : Comparison → Bool) : Prop where
  exactly : [t .lt, t .eq, t .gt].count true = 1
  le : t .le = (t .lt || t .eq)
  ge : t .ge = (t .gt || t .eq)
  ne : t .ne = !t .eq

/-- **Comparisons of numbers cohere exactly when the numbers are equal or have different
doubles.** -/
theorem coherent_ofUnits_iff (u v : Int) :
    Coherent (Comparison.ofUnits · u v) ↔ u = v ∨ Double.nearest u ≠ Double.nearest v := by
  have hnearest : u = v → Double.nearest u = Double.nearest v := congrArg _
  constructor
  · intro h
    have hexactly := h.exactly
    simp only [Comparison.ofUnits] at hexactly
    by_contra hnone
    obtain ⟨hne, heq⟩ := not_or.1 hnone
    rw [not_not.1 heq] at hexactly
    simp [hne] at hexactly
  · intro h
    rcases lt_trichotomy (Double.nearest u) (Double.nearest v) with hlt | heq | hgt
    · have hne : u ≠ v := fun huv => hlt.ne (hnearest huv)
      constructor <;> simp [Comparison.ofUnits, hne, hlt, hlt.le, hlt.not_gt]
    · obtain rfl : u = v := h.resolve_right (not_not.2 heq)
      constructor <;> simp [Comparison.ofUnits]
    · have hne : u ≠ v := fun huv => hgt.ne (hnearest huv).symm
      constructor <;> simp [Comparison.ofUnits, hne, hgt, hgt.le, hgt.not_gt]

namespace Evaluation

variable {a b : Scalar} {x y : Double} {u v : Int}

theorem compareValues_numbers (c : Comparison) (ha : a.RoundsTo x) (hb : b.RoundsTo y)
    (hu : a.units? = some u) (hv : b.units? = some v) :
    compareValues c (.scalar a) (.scalar b) = .ok (c.ofUnits u v) := by
  have hsame : a.same b = decide (u = v) := by
    rw [Bool.eq_iff_iff, Scalar.same_iff_units ha hb hu hv, decide_eq_true_eq]
  have hordered (test : Ordering → Bool) : compareValues.ordered (.scalar a) (.scalar b) test =
      .ok (test (compare (Double.nearest u) (Double.nearest v))) := by
    rw [compareValues.ordered, Value.toNumber, Value.toNumber, ha.double, hb.double]
    change Except.ok ((x.compare? y).any test) = _
    rw [Scalar.compare_of_units ha hb hu hv]
    rfl
  cases c with
  | eq => exact congrArg Except.ok hsame
  | ne => exact congrArg (fun t => Except.ok !t) hsame
  | lt =>
    refine (hordered (· == .lt)).trans (congrArg Except.ok ?_)
    rw [Comparison.ofUnits, Bool.eq_iff_iff, beq_iff_eq, Int.compare_eq_lt, decide_eq_true_eq]
  | le =>
    refine (hordered (· != .gt)).trans (congrArg Except.ok ?_)
    rw [Comparison.ofUnits, Bool.eq_iff_iff, bne_iff_ne, Ne, Int.compare_eq_gt, Int.not_lt,
      decide_eq_true_eq]
  | gt =>
    refine (hordered (· == .gt)).trans (congrArg Except.ok ?_)
    rw [Comparison.ofUnits, Bool.eq_iff_iff, beq_iff_eq, Int.compare_eq_gt, decide_eq_true_eq]
  | ge =>
    refine (hordered (· != .lt)).trans (congrArg Except.ok ?_)
    rw [Comparison.ofUnits, Bool.eq_iff_iff, bne_iff_ne, Ne, Int.compare_eq_lt, Int.not_lt,
      decide_eq_true_eq]

/-- Wherever two values are compared, the comparisons have these truth values and read nothing. -/
def ComparesAs (a b : Scalar) (t : Comparison → Bool) : Prop :=
  ∀ (c : Comparison) (payload : Value) (scope : Scope) (trace : Trace),
    (eval payload (.object [(c.symbol, .array [.scalar a, .scalar b])]) scope).run trace =
      (.ok (.bool (t c)), trace)

theorem comparesAs_ofUnits (ha : a.RoundsTo x) (hb : b.RoundsTo y) (hu : a.units? = some u)
    (hv : b.units? = some v) : ComparesAs a b (Comparison.ofUnits · u v) := by
  intro c payload scope trace
  rw [eval_compare, eval, eval, pure_bind, pure_bind, compareValues_numbers c ha hb hu hv]
  rfl

/-- **Comparisons of numbers** read nothing and give a truth value, which equality takes from their
values and the orderings take from their doubles. The orderings never contradict the values. The
comparisons cohere exactly when the numbers are equal or have different doubles, so that they do for
all doubles and all integers of at most `2 ^ 53` in size. -/
theorem eval_compare_numbers (ha : a.RoundsTo x) (hb : b.RoundsTo y) :
    ∃ (u v : Int) (t : Comparison → Bool), a.units? = some u ∧ b.units? = some v ∧
      ComparesAs a b t ∧
      (t .eq = decide (u = v) ∧ t .ne = !t .eq) ∧
      (t .lt = (x.compare? y == some .lt) ∧ t .gt = (x.compare? y == some .gt) ∧
        t .le = !t .gt ∧ t .ge = !t .lt) ∧
      ((t .lt = true → u < v) ∧ (t .gt = true → v < u)) ∧
      (Coherent t ↔ u = v ∨ x.numEq y = false) ∧
      (a.Small → b.Small → Coherent t) := by
  obtain ⟨u, hu, hx⟩ := ha.exists_units
  obtain ⟨v, hv, hy⟩ := hb.exists_units
  have hordered := Scalar.compare_of_units ha hb hu hv
  have hcoherent : Coherent (Comparison.ofUnits · u v) ↔ u = v ∨ x.numEq y = false := by
    rw [coherent_ofUnits_iff, ← Bool.not_eq_true, Double.numEq_iff hx hy]
  refine ⟨u, v, _, hu, hv, comparesAs_ofUnits ha hb hu hv, ⟨rfl, rfl⟩, ⟨?_, ?_, ?_, ?_⟩,
    ⟨fun hlt => lt_of_not_ge fun hle => ?_, fun hgt => lt_of_not_ge fun hle => ?_⟩,
    hcoherent, ?_⟩
  · rw [hordered, Option.some_beq_some, Bool.eq_iff_iff, beq_iff_eq, Int.compare_eq_lt]
    exact decide_eq_true_iff
  · rw [hordered, Option.some_beq_some, Bool.eq_iff_iff, beq_iff_eq, Int.compare_eq_gt]
    exact decide_eq_true_iff
  · simp only [Comparison.ofUnits, ← decide_not, not_lt]
  · simp only [Comparison.ofUnits, ← decide_not, not_lt]
  · exact (of_decide_eq_true hlt).not_ge (Double.nearest_mono hle)
  · exact (of_decide_eq_true hgt).not_ge (Double.nearest_mono hle)
  · intro hsmallA hsmallB
    rw [coherent_ofUnits_iff, Scalar.nearest_of_small hsmallA hu,
      Scalar.nearest_of_small hsmallB hv]
    exact em (u = v)

/-- Integers with different doubles cohere, also where not all integers are doubles. -/
theorem eval_compare_numbers_apart :
    (Scalar.int 9007199254740992).RoundsTo (.ofInt 9007199254740992) ∧
    (Scalar.int 9007199254740994).RoundsTo (.ofInt 9007199254740994) ∧
    ∃ t, ComparesAs (.int 9007199254740992) (.int 9007199254740994) t ∧
      Coherent t ∧ t .lt = true := by
  have ha : (Scalar.int 9007199254740992).RoundsTo _ := .of_int (by decide +kernel)
  have hb : (Scalar.int 9007199254740994).RoundsTo _ := .of_int (by decide +kernel)
  obtain ⟨u, v, t, -, -, heval, -, ⟨hlt, -⟩, -, hcoherent, -⟩ := eval_compare_numbers ha hb
  exact ⟨ha, hb, t, heval, hcoherent.2 (.inr (by decide +kernel)), hlt.trans (by decide +kernel)⟩

/-- Of two integers with the same double none is less, and they are not equal. -/
theorem eval_compare_numbers_adjacent :
    (Scalar.int 9007199254740992).RoundsTo (.ofInt 9007199254740992) ∧
    (Scalar.int 9007199254740993).RoundsTo (.ofInt 9007199254740992) ∧
    ∃ t, ComparesAs (.int 9007199254740992) (.int 9007199254740993) t ∧
      t .lt = false ∧ t .eq = false ∧ t .gt = false ∧ t .le = true ∧ t .ge = true := by
  have hround : Double.ofInt 9007199254740993 = .ofInt 9007199254740992 := by decide +kernel
  have ha : (Scalar.int 9007199254740992).RoundsTo _ := .of_int (by decide +kernel)
  have hb : (Scalar.int 9007199254740993).RoundsTo (.ofInt 9007199254740992) :=
    hround ▸ .of_int (by decide +kernel)
  obtain ⟨u, hu, hx⟩ := ha.exists_units
  obtain ⟨v, hv, hy⟩ := hb.exists_units
  have hsame : Double.nearest u = Double.nearest v := Option.some.inj (hx.symm.trans hy)
  have hne : u ≠ v := by
    rintro rfl
    exact absurd ((Scalar.same_iff_units ha hb hu hv).2 rfl) (by decide)
  refine ⟨ha, hb, _, comparesAs_ofUnits ha hb hu hv, ?_⟩
  simp [Comparison.ofUnits, hsame, hne]

end Evaluation
end Criteria
