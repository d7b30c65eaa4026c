import Criteria.Proofs.Evaluation.Runs
import Criteria.Proofs.Except

/-!
# What a path means among elements

A path is asked of one element after the other, innermost first (`Scope.resolve_append`). It means
something when one of them serves it (`Scope.exists_of_resolve`), and nothing when none does
(`Scope.resolve_eq_none_iff`). An element is read inside at the path as it stands, unless the path
is relative to its name; then it serves what follows the name, or it lacks that (`Frame.Lacks`).
-/

namespace Criteria

open Evaluation

/-- Whether a reading finds nothing can be decided, although values cannot be compared. -/
instance (outcome : Except EvaluationError (Option Value)) : Decidable (outcome = .ok none) :=
  match outcome with
  | .ok none => .isTrue rfl
  | .ok (some _) => .isFalse nofun
  | .error _ => .isFalse nofun

/-! ## One element -/

namespace Frame

variable {frame : Frame} {path : String}

/-- A path that is not relative to the name of an element is read inside it as it stands. -/
theorem resolve_eq_read (h : ∀ name, frame.name = some name → Path.isRelativeTo name path = false) :
    frame.resolve path = frame.value.read path := by
  rcases frame with ⟨value, _ | name⟩
  · rfl
  · obtain ⟨hname, hafter⟩ := Bool.or_eq_false_iff.1 (h name rfl)
    rw [decide_eq_false_iff_not] at hname
    rw [Option.isSome_eq_false_iff, Option.isNone_iff_eq_none] at hafter
    simp only [resolve, hname, hafter, if_false]
    split <;> rfl

/-- The name of an element stands for it. -/
theorem resolve_name {value : Value} {name : String} (hne : name ≠ "") :
    (Frame.mk value (some name)).resolve name = .ok (some value) := by
  simp only [resolve, ne_eq, hne, not_false_eq_true, if_true]
  rfl

/-- What continues the name of an element is read inside it, and otherwise the path as it stands. -/
theorem resolve_after {value : Value} {name rest : String} (hne : name ≠ "")
    (hpath : path ≠ name) (hafter : Path.after? name path = some rest) :
    (Frame.mk value (some name)).resolve path = (do
      match ← value.read rest with
      | some found => return some found
      | none => value.read path) := by
  simp only [resolve, ne_eq, hne, not_false_eq_true, if_true, hpath, if_false, hafter]
  congr 1
  funext found
  cases found <;> rfl

/-- An element in which a path means nothing has nothing at the path as it stands. -/
theorem read_eq_none_of_resolve (h : frame.resolve path = .ok none) :
    frame.value.read path = .ok none := by
  unfold resolve at h
  split at h
  · split at h
    · split at h
      · cases h
      · split at h
        · obtain ⟨found, -, hrest⟩ := bind_ok h
          cases found with
          | some value => cases hrest
          | none => exact hrest
        · exact h
    · exact h
  · exact h

/-- The path continues the name of an element, and the element does not have what follows. -/
def Lacks (frame : Frame) (path : String) : Prop :=
  match frame.name.bind (Path.after? · path) with
  | some rest => frame.value.read rest = .ok none
  | none => False

instance (frame : Frame) (path : String) : Decidable (frame.Lacks path) := by
  unfold Lacks
  split <;> infer_instance

/-- A path that is relative to the name of an element and means nothing in it is lacking there. -/
theorem lacks_of_resolve {name : String} (hname : frame.name = some name) (hne : name ≠ "")
    (hrelative : Path.isRelativeTo name path = true) (h : frame.resolve path = .ok none) :
    frame.Lacks path := by
  rcases frame with ⟨value, _⟩
  cases hname
  by_cases hpath : path = name
  · rw [hpath, resolve_name hne] at h
    cases h
  · rw [Path.isRelativeTo, decide_eq_false hpath, Bool.false_or] at hrelative
    obtain ⟨rest, hrest⟩ := Option.isSome_iff_exists.1 hrelative
    rw [resolve_after hne hpath hrest] at h
    simp only [Lacks, Option.bind_some, hrest]
    obtain ⟨found, hread, hfound⟩ := bind_ok h
    cases found with
    | some v => cases hfound
    | none => exact hread

end Frame

/-! ## All elements -/

namespace Scope

variable {scope : Scope} {path : String}

/-- The names of the elements, innermost first. -/
def names (scope : Scope) : List String := scope.filterMap Frame.name

theorem resolve_cons (frame : Frame) (outer : Scope) (path : String) :
    resolve path (frame :: outer) = (do
      match ← frame.resolve path with
      | some value => return some value
      | none => resolve path outer) := rfl

/-- Outer elements do not matter where an inner one decides. -/
theorem resolve_cons_of_ne {frame : Frame} (h : frame.resolve path ≠ .ok none) (outer : Scope) :
    resolve path (frame :: outer) = frame.resolve path := by
  rw [resolve_cons]
  rcases hframe : frame.resolve path with error | _ | value
  · rfl
  · exact absurd hframe h
  · rfl

/-- Outer elements are asked when the inner ones do not serve the path. -/
theorem resolve_append (inner outer : Scope) (path : String) :
    resolve path (inner ++ outer) = (do
      match ← resolve path inner with
      | some value => return some value
      | none => resolve path outer) := by
  induction inner with
  | nil => rfl
  | cons frame inner ih =>
    rw [List.cons_append, resolve_cons, resolve_cons, ih]
    rcases frame.resolve path with error | _ | value <;> rfl

theorem resolve_eq_none_iff :
    resolve path scope = .ok none ↔ ∀ frame ∈ scope, frame.resolve path = .ok none := by
  induction scope with
  | nil => exact iff_of_true rfl nofun
  | cons frame outer ih =>
    rw [resolve_cons, List.forall_mem_cons, ← ih]
    rcases frame.resolve path with error | _ | value
    · exact iff_of_false nofun fun h => nomatch h.1
    · exact (and_iff_right rfl).symm
    · exact iff_of_false nofun fun h => nomatch h.1

theorem exists_of_resolve {value : Value} (h : resolve path scope = .ok (some value)) :
    ∃ frame ∈ scope, frame.resolve path = .ok (some value) := by
  induction scope with
  | nil => cases h
  | cons frame outer ih =>
    obtain ⟨found, hframe, hrest⟩ := bind_ok h
    cases found with
    | some v =>
      cases hrest
      exact ⟨frame, List.mem_cons_self .., hframe⟩
    | none =>
      obtain ⟨other, hother, hresolve⟩ := ih hrest
      exact ⟨other, List.mem_cons_of_mem _ hother, hresolve⟩

end Scope

/-! ## Reading a variable -/

/-- What is noted of a value: a missing one as `null`. -/
def Value.noted : Value → Value
  | .missing => .scalar .null
  | value => value

namespace Evaluation

variable {payload value : Value} {scope : Scope} {path : String} {trace next : Trace}

theorem run_readVariable_served (h : scope.resolve path = .ok (some value)) (trace : Trace) :
    (readVariable payload scope path).run trace = (.ok value, trace) := by
  rw [readVariable, run_bind, h]
  rfl

theorem run_readVariable_read (h : scope.resolve path = .ok none) {found : Option Value}
    (hread : payload.read path = .ok found) (trace : Trace) :
    (readVariable payload scope path).run trace =
      (.ok (found.getD .missing), trace.note path (found.getD .missing).noted) := by
  rw [readVariable, run_bind, h, hread]
  rcases found with _ | value
  · rfl
  · cases value <;> rfl

/-- **A variable is served by an element, or read from the payload and noted.** -/
theorem run_readVariable_ok
    (h : (readVariable payload scope path).run trace = (.ok value, next)) :
    (scope.resolve path = .ok (some value) ∧ next = trace) ∨
      (scope.resolve path = .ok none ∧ ∃ found, payload.read path = .ok found ∧
        value = found.getD .missing ∧ next = trace.note path value.noted) := by
  rcases hresolve : scope.resolve path with error | _ | served
  · rw [readVariable, run_bind, hresolve] at h
    cases h
  · rcases hread : payload.read path with error | found
    · rw [readVariable, run_bind, hresolve, hread] at h
      cases h
    · rw [run_readVariable_read hresolve hread] at h
      cases h
      exact .inr ⟨rfl, found, rfl, rfl, rfl⟩
  · rw [run_readVariable_served hresolve] at h
    cases h
    exact .inl ⟨rfl, rfl⟩

theorem run_readVariable_failed {error : EvaluationError} (h : scope.resolve path = .error error)
    (trace : Trace) : (readVariable payload scope path).run trace = (.error error, trace) := by
  rw [readVariable, run_bind, h]
  rfl

theorem run_readVariable_unread {error : EvaluationError} (h : scope.resolve path = .ok none)
    (hread : payload.read path = .error error) (trace : Trace) :
    (readVariable payload scope path).run trace = (.error error, trace) := by
  rw [readVariable, run_bind, h, hread]
  rfl

/-- Reading a variable changes the trace only by noting what the payload serves. -/
theorem keeps_readVariable {I : Trace → Prop} {E : EvaluationError → Prop}
    (hfails : ∀ error, E error)
    (hnote : ∀ found trace, payload.read path = .ok found → I trace →
      I (trace.note path (found.getD .missing).noted)) :
    Keeps I E (readVariable payload scope path) := by
  refine fun trace hI => ⟨?_, fun error _ => hfails error⟩
  rcases hresolve : scope.resolve path with error | _ | served
  · rw [run_readVariable_failed hresolve]
    exact hI
  · rcases hread : payload.read path with error | found
    · rw [run_readVariable_unread hresolve hread]
      exact hI
    · rw [run_readVariable_read hresolve hread]
      exact hnote found trace hread hI
  · rw [run_readVariable_served hresolve]
    exact hI

end Evaluation

end Criteria
