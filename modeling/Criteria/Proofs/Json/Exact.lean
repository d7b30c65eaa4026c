import Criteria.Json.Basic
import Criteria.Proofs.Number.Rounding

/-!
# Values up to the form of their numbers

A number has one value and several forms: an integer, or a double with an integral value, or a zero
of either sign. `Scalar.exact` gives every number one form, the integer where there is one. Two
values are `Scalar.Alike` when they are equal or equal as numbers, and that is to have the same
exact form (`Scalar.alike_iff`). `Json.Alike` is the same of whole JSON values.
-/

namespace Criteria

/-! ## Doubles with equal values -/

namespace Double

theorem units_finite {negative : Bool} {m s : Nat} (h : Canonical m s) :
    (Double.finite negative m s h).units? =
      some (if negative then -((m * 2 ^ s : Nat) : Int) else ((m * 2 ^ s : Nat) : Int)) := rfl

/-- A size has one normal form. -/
theorem canonical_unique {m s m' s' : Nat} (h : Canonical m s) (h' : Canonical m' s')
    (heq : m * 2 ^ s = m' * 2 ^ s') : m = m' ∧ s = s' := by
  have hround := ofQuotient_exact false h
  rw [heq, ofQuotient_exact false h'] at hround
  simp only [Double.finite.injEq, true_and] at hround
  exact ⟨hround.1.symm, hround.2.symm⟩

theorem size_lt {m s : Nat} (h : Canonical m s) : m * 2 ^ s < 2 ^ (maxScale + 53) := by
  obtain ⟨hm, hs, -⟩ := canonical_iff.1 h
  calc m * 2 ^ s < 2 ^ 53 * 2 ^ s := Nat.mul_lt_mul_of_pos_right hm (Nat.two_pow_pos s)
    _ ≤ 2 ^ 53 * 2 ^ maxScale := Nat.mul_le_mul_left _ (Nat.pow_le_pow_right (by decide) hs)
    _ = 2 ^ (maxScale + 53) := by rw [← Nat.pow_add, Nat.add_comm]

theorem eqInt_iff {d : Double} {n : Int} : d.eqInt n = true ↔ d.toInt? = some n := by
  have hpos : (0 : Int) < unitsPerOne := by exact_mod_cast unitsPerOne_pos
  unfold eqInt toInt?
  cases d.units? with
  | none => simp
  | some u =>
    simp only [beq_iff_eq, Option.some.injEq, Option.bind_eq_bind, Option.bind_some]
    constructor
    · rintro rfl
      rw [if_pos (Int.mul_emod_left _ _), Int.mul_ediv_cancel _ hpos.ne']
    · intro h
      split at h
      · rename_i hmod
        rw [← Option.some.inj h, Int.ediv_mul_cancel (Int.dvd_of_emod_eq_zero hmod)]
      · cases h

theorem toInt_finite_zero {negative : Bool} {s : Nat} (h : Canonical 0 s) :
    (Double.finite negative 0 s h).toInt? = some 0 := by
  rw [← eqInt_iff, eqInt, units_finite]
  simp

/-- Equal counts of units make equal doubles, except for the zeros. -/
theorem eq_of_units_eq {d e : Double} {u : Int} (hd : d.units? = some u) (he : e.units? = some u)
    (hint : d.toInt? = none) : d = e := by
  cases d with
  | nan => cases hd
  | infinite => cases hd
  | finite a m s h =>
    cases e with
    | nan => cases he
    | infinite => cases he
    | finite b m' s' h' =>
      rw [units_finite] at hd he
      have heq := (Option.some.inj hd).trans (Option.some.inj he).symm
      have hm : m ≠ 0 := by
        rintro rfl
        rw [toInt_finite_zero] at hint
        cases hint
      have hpos : 0 < m * 2 ^ s := Nat.mul_pos (Nat.pos_of_ne_zero hm) (Nat.two_pow_pos s)
      have hsize : a = b ∧ m * 2 ^ s = m' * 2 ^ s' := by
        generalize m * 2 ^ s = x at *
        generalize m' * 2 ^ s' = y at *
        cases a <;> cases b <;> simp at heq ⊢ <;> omega
      obtain ⟨rfl, hsize⟩ := hsize
      obtain ⟨rfl, rfl⟩ := canonical_unique h h' hsize
      rfl

theorem rank_of_units {d : Double} {u : Int} (h : d.units? = some u) : d.rank? = some u := by
  cases d with
  | nan => cases h
  | infinite => cases h
  | finite => exact h

/-- Doubles are equal as numbers when they have the same place in the order. -/
theorem numEq_iff {d e : Double} {u v : Int} (hd : d.rank? = some u) (he : e.rank? = some v) :
    d.numEq e = true ↔ u = v := by
  simp only [numEq, compare?, hd, he, Option.bind_eq_bind, Option.bind_some, Option.pure_def,
    beq_iff_eq, Option.some.injEq, Int.compare_eq_eq]

theorem numEq_of_units {d e : Double} {u : Int} (hd : d.units? = some u) (he : e.units? = some u) :
    d.numEq e = true :=
  (numEq_iff (rank_of_units hd) (rank_of_units he)).2 rfl

theorem rank_infinite (negative : Bool) :
    (Double.infinite negative).rank? =
      some (if negative then -((2 ^ (maxScale + 53) : Nat) : Int)
        else ((2 ^ (maxScale + 53) : Nat) : Int)) := rfl

/-- The rank of an infinity is no count of units. -/
theorem rank_infinite_ne_units {negative : Bool} {d : Double} {u : Int} (hd : d.units? = some u) :
    (Double.infinite negative).rank? ≠ some u := by
  cases d with
  | nan => cases hd
  | infinite => cases hd
  | finite a m s h =>
    have hlt := size_lt h
    rw [units_finite] at hd
    rw [rank_infinite, ← hd]
    generalize m * 2 ^ s = x at *
    generalize 2 ^ (maxScale + 53) = y at *
    intro heq
    have heq := Option.some.inj heq
    cases a <;> cases negative <;> simp at heq <;> omega

theorem rank_infinite_inj {a b : Bool}
    (h : (Double.infinite a).rank? = (Double.infinite b).rank?) : a = b := by
  rw [rank_infinite, rank_infinite] at h
  have heq := Option.some.inj h
  have hpos : 0 < 2 ^ (maxScale + 53) := Nat.two_pow_pos _
  generalize 2 ^ (maxScale + 53) = y at *
  cases a <;> cases b <;> simp at heq ⊢ <;> omega

/-- Doubles that are equal as numbers are the same, or have the same count of units. -/
theorem eq_or_units_of_numEq {d e : Double} (h : d.numEq e = true) :
    d = e ∨ ∃ u, d.units? = some u ∧ e.units? = some u := by
  have hrank : ∃ r, d.rank? = some r ∧ e.rank? = some r := by
    simp only [numEq, compare?, beq_iff_eq, Option.bind_eq_bind, Option.bind_eq_some_iff,
      Option.pure_def, Option.some.injEq] at h
    obtain ⟨r, hr, r', hr', hcmp⟩ := h
    exact ⟨r, hr, Int.compare_eq_eq.1 hcmp ▸ hr'⟩
  obtain ⟨r, hd, he⟩ := hrank
  cases d with
  | nan => cases hd
  | infinite a =>
    cases e with
    | nan => cases he
    | infinite b => rw [rank_infinite_inj (hd.trans he.symm)]; exact .inl rfl
    | finite b m s hc => exact absurd hd (rank_infinite_ne_units (d := .finite b m s hc) he)
  | finite a m s hc =>
    cases e with
    | nan => cases he
    | infinite => exact absurd he (rank_infinite_ne_units (d := .finite a m s hc) hd)
    | finite => exact .inr ⟨r, hd, he⟩

end Double

/-! ## Values without parts -/

namespace Scalar

/-- The value with its number in one form: the integer where there is one. -/
def exact : Scalar → Scalar
  | .double d =>
    match d.toInt? with
    | some n => .int n
    | none => .double d
  | v => v

/-- The same value, where numbers count by value. -/
def Alike (v w : Scalar) : Prop := v = w ∨ v.same w = true

theorem exact_int (n : Int) : (Scalar.int n).exact = .int n := rfl

theorem exact_of_toInt {d : Double} {n : Int} (h : d.toInt? = some n) :
    (Scalar.double d).exact = .int n := by
  simp only [exact, h]

theorem exact_of_not_int {d : Double} (h : d.toInt? = none) :
    (Scalar.double d).exact = .double d := by
  simp only [exact, h]

theorem exact_double (d : Double) :
    (∃ n, (Scalar.double d).exact = .int n) ∨ (Scalar.double d).exact = .double d := by
  cases h : d.toInt? with
  | none => exact .inr (exact_of_not_int h)
  | some n => exact .inl ⟨n, exact_of_toInt h⟩

theorem int_eq_exact_double {n : Int} {d : Double} :
    .int n = (Scalar.double d).exact ↔ d.eqInt n = true := by
  rw [Double.eqInt_iff]
  cases h : d.toInt? with
  | none => simp [exact_of_not_int h]
  | some m => simp [exact_of_toInt h, eq_comm]

theorem exact_double_eq_double {d e : Double} :
    (Scalar.double d).exact = (Scalar.double e).exact ↔ d = e ∨ d.numEq e = true := by
  constructor
  · intro h
    cases hd : d.toInt? with
    | none =>
      rw [exact_of_not_int hd] at h
      cases he : e.toInt? with
      | none =>
        rw [exact_of_not_int he] at h
        exact .inl (Scalar.double.inj h)
      | some n =>
        rw [exact_of_toInt he] at h
        cases h
    | some n =>
      rw [exact_of_toInt hd, int_eq_exact_double] at h
      have hunits := Double.eqInt_iff.2 hd
      simp only [Double.eqInt, beq_iff_eq] at h hunits
      exact .inr (Double.numEq_of_units hunits h)
  · rintro (rfl | h)
    · rfl
    · rcases Double.eq_or_units_of_numEq h with rfl | ⟨u, hd, he⟩
      · rfl
      · have hint : d.toInt? = e.toInt? := by rw [Double.toInt?, Double.toInt?, hd, he]
        cases hd' : d.toInt? with
        | none => rw [Double.eq_of_units_eq hd he hd']
        | some n => rw [exact_of_toInt hd', exact_of_toInt (hint ▸ hd')]

/-- **Two values are alike exactly when they have the same exact form.** -/
theorem alike_iff {v w : Scalar} : v.Alike w ↔ v.exact = w.exact := by
  unfold Alike same
  split
  · simpa [exact_int] using int_eq_exact_double.symm
  · simpa [exact_int] using int_eq_exact_double.symm.trans eq_comm
  · simpa using exact_double_eq_double.symm
  · rename_i hint hint' hdouble
    simp only [decide_eq_true_eq, or_self]
    refine ⟨congrArg exact, fun h => ?_⟩
    -- what is left are two values of which none is a double beside a number
    cases v with
    | int n =>
      cases w with
      | double e => exact (hint n e rfl rfl).elim
      | _ => exact h
    | double d =>
      cases w with
      | int n => exact (hint' d n rfl rfl).elim
      | double e => exact (hdouble d e rfl rfl).elim
      | _ => rcases exact_double d with ⟨n, hd⟩ | hd <;> rw [hd] at h <;> cases h
    | _ =>
      cases w with
      | double e => rcases exact_double e with ⟨n, he⟩ | he <;> rw [he] at h <;> cases h
      | _ => exact h

/-- A value is alike to its exact form. -/
theorem exact_alike (v : Scalar) : v.exact.Alike v := by
  rw [alike_iff]
  cases v with
  | double d =>
    rcases exact_double d with ⟨n, hd⟩ | hd
    · rw [hd]
      rfl
    · rw [hd, hd]
  | _ => rfl

theorem Alike.refl (v : Scalar) : v.Alike v := .inl rfl

end Scalar

/-! ## JSON values -/

namespace Json

mutual

/-- The value with every number in one form: the integer where there is one. -/
def exact : Json → Json
  | .scalar value => .scalar value.exact
  | .array items => .array (exactItems items)
  | .object fields => .object (exactFields fields)

/-- The items with every number in one form. -/
def exactItems : List Json → List Json
  | [] => []
  | item :: rest => exact item :: exactItems rest

/-- The entries with every number in one form. -/
def exactFields : List (String × Json) → List (String × Json)
  | [] => []
  | (name, value) :: rest => (name, exact value) :: exactFields rest

end

/-- The same value, where numbers count by value. -/
def Alike (v w : Json) : Prop := v.exact = w.exact

theorem alike_scalar {v w : Scalar} : (Json.scalar v).Alike (.scalar w) ↔ v.Alike w := by
  rw [Scalar.alike_iff, Alike, exact, exact, Json.scalar.injEq]

theorem exactItems_eq_map (items : List Json) : exactItems items = items.map exact := by
  induction items with
  | nil => rfl
  | cons item rest ih => rw [exactItems, ih, List.map_cons]

end Json

end Criteria
