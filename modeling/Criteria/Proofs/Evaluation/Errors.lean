import Criteria.Evaluation.Evaluator
import Criteria.Proofs.Except
import Criteria.Proofs.Path

/-!
# What failures mean

Each step of an evaluation that can fail fails for one reason, which its lemma tells: following a
path fails for an index with too many digits (`Scope.resolve_error`), an ordering for a number
beyond the doubles (`Evaluation.compareValues_error`), a quantifier for a collection that is no array
(`Evaluation.elements_error`). These are the failures that come from the data
(`EvaluationError.IsOfData`).
-/

namespace Criteria

/-- The failure comes from the data that a condition is run on: a collection that is no array, a
number beyond the doubles, or an array index of too many digits. -/
def EvaluationError.IsOfData : EvaluationError → Prop
  | .notAnArray .. => True
  | .numberTooLarge => True
  | .indexTooLong _ => True
  | _ => False

theorem EvaluationError.isOfData_of_isNumeric {error : EvaluationError}
    (h : error.isNumeric = true) : error.IsOfData := by
  cases error with
  | numberTooLarge => trivial
  | indexTooLong => trivial
  | _ => cases h

/-! ## Numbers that are too large -/

/-- An integer, or a hexadecimal numeral, beyond the doubles. -/
def Scalar.TooLarge : Scalar → Prop
  | .int n => (Double.ofInt n).isFinite = false
  | .string s => ∃ n : Nat, Value.hexNumber? (Text.trimBlank s.toList) = some n ∧
      (Double.ofInt n).isFinite = false
  | _ => False

namespace Value

/-- What the value counts as in an ordering is beyond the doubles. -/
def TooLarge : Value → Prop
  | .scalar value => value.TooLarge
  | .array _ [.scalar value] => value.TooLarge
  | _ => False

theorem intNumber_error {n : Int} {error : EvaluationError} (h : intNumber n = .error error) :
    (Double.ofInt n).isFinite = false ∧ error = .numberTooLarge := by
  simp only [intNumber] at h
  split at h
  · cases h
  · rename_i hfinite
    cases h
    exact ⟨eq_false_of_ne_true hfinite, rfl⟩

theorem scalarNumber_error {v : Scalar} {error : EvaluationError}
    (h : scalarNumber v = .error error) : v.TooLarge ∧ error = .numberTooLarge := by
  cases v with
  | int n => exact intNumber_error h
  | string s =>
    simp only [scalarNumber, stringNumber] at h
    split at h
    · cases h
    split at h
    · cases h
    split at h
    · cases h
    split at h
    · cases h
    split at h
    · rename_i n hn
      obtain ⟨hlarge, herror⟩ := intNumber_error h
      exact ⟨⟨n, hn, hlarge⟩, herror⟩
    · cases h
  | _ => cases h

theorem toNumber_error {value : Value} {error : EvaluationError}
    (h : value.toNumber = .error error) : value.TooLarge ∧ error = .numberTooLarge := by
  unfold toNumber at h
  split at h
  · exact scalarNumber_error h
  · cases h
  · exact scalarNumber_error h
  · cases h

end Value

/-! ## Segments with too many digits -/

namespace Path

/-- The segment is written as an index and has more digits than are read. -/
def TooLong (segment : String) : Prop :=
  isIndex segment = true ∧ maxIntDigits < segment.length

end Path

/-- The failure is for an index among the segments. -/
def EvaluationError.IsOfIndex (error : EvaluationError) (segments : List String) : Prop :=
  ∃ segment ∈ segments, Path.TooLong segment ∧ error = .indexTooLong segment.length

theorem EvaluationError.IsOfIndex.mono {error : EvaluationError}
    {segments segments' : List String} (h : error.IsOfIndex segments)
    (hsubset : segments ⊆ segments') : error.IsOfIndex segments' := by
  obtain ⟨segment, hmem, hreason⟩ := h
  exact ⟨segment, hsubset hmem, hreason⟩

theorem EvaluationError.IsOfIndex.isNumeric {error : EvaluationError} {segments : List String}
    (h : error.IsOfIndex segments) : error.isNumeric = true := by
  obtain ⟨_, -, -, rfl⟩ := h
  rfl

theorem Value.follow_error {value : Value} {segments : List String} {error : EvaluationError}
    (h : value.follow segments = .error error) : error.IsOfIndex segments := by
  induction segments generalizing value with
  | nil => cases h
  | cons segment rest ih =>
    rcases bind_error h with hpart | ⟨next, -, hrest⟩
    · unfold part? at hpart
      split at hpart
      · cases hpart
      · split at hpart
        · rename_i hindex
          split at hpart
          · rename_i hlong
            cases hpart
            exact ⟨segment, List.mem_cons_self .., ⟨hindex, hlong⟩, rfl⟩
          · cases hpart
        · cases hpart
      · cases hpart
    · cases next with
      | none => cases hrest
      | some next => exact (ih hrest).mono (List.subset_cons_self ..)

theorem Value.read_error {value : Value} {path : String} {error : EvaluationError}
    (h : value.read path = .error error) : error.IsOfIndex (Path.segments path) := by
  unfold read at h
  split at h
  · cases h
  · exact follow_error h

theorem Frame.resolve_error {frame : Frame} {path : String} {error : EvaluationError}
    (h : frame.resolve path = .error error) : error.IsOfIndex (Path.segments path) := by
  unfold Frame.resolve at h
  split at h
  · split at h
    · split at h
      · cases h
      · split at h
        · rename_i rest hrest
          rcases bind_error h with hread | ⟨found, -, hread⟩
          · exact (Value.read_error hread).mono (Path.segments_subset_of_after? hrest)
          · cases found with
            | none => exact Value.read_error hread
            | some value => cases hread
        · exact Value.read_error h
    · exact Value.read_error h
  · exact Value.read_error h

theorem Scope.resolve_error {scope : Scope} {path : String} {error : EvaluationError}
    (h : scope.resolve path = .error error) : error.IsOfIndex (Path.segments path) := by
  induction scope with
  | nil => cases h
  | cons frame outer ih =>
    rcases bind_error h with hframe | ⟨found, -, houter⟩
    · exact Frame.resolve_error hframe
    · cases found with
      | none => exact ih houter
      | some value => cases houter

namespace Evaluation

theorem compareValues_error {c : Comparison} {l r : Value} {error : EvaluationError}
    (h : compareValues c l r = .error error) :
    (c ≠ .eq ∧ c ≠ .ne) ∧ (l.TooLarge ∨ r.TooLarge) ∧ error = .numberTooLarge := by
  have hordered : ∀ test, compareValues.ordered l r test = .error error →
      (l.TooLarge ∨ r.TooLarge) ∧ error = .numberTooLarge := by
    intro test h
    rcases bind_error h with hleft | ⟨a, -, h⟩
    · exact (Value.toNumber_error hleft).imp_left .inl
    rcases bind_error h with hright | ⟨b, -, h⟩
    · exact (Value.toNumber_error hright).imp_left .inr
    · cases h
  cases c with
  | eq => cases h
  | ne => cases h
  | _ => exact ⟨⟨by decide, by decide⟩, hordered _ h⟩

/-- A comparison fails on numbers only. -/
theorem isNumeric_of_compareValues {c : Comparison} {l r : Value} {error : EvaluationError}
    (h : compareValues c l r = .error error) : error.isNumeric = true := by
  obtain ⟨-, -, rfl⟩ := compareValues_error h
  rfl

theorem elements_error {q : Quantifier} {path : Option String} {value : Value}
    {error : EvaluationError} (h : elements q path value = .error error) :
    error = .notAnArray q path value.kind := by
  unfold elements at h
  split at h
  · cases h
  · cases h
  · cases h
  · cases h
    rfl

end Evaluation

end Criteria
