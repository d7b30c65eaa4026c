import Criteria.Proofs.Evaluation.Forms
import Criteria.Proofs.Evaluation.Visits

/-!
# Duality

A conjunction is the negation of the disjunction of the negated operands, and `all` is the negation
of `some` with the negated predicate (`Evaluation.eval_dual`). The two sides do the same all along:
they come to the same operands or elements, note the same reads in the same order and fail alike.
Only the failure of a quantifier whose collection is no array tells its name.

Operands and elements are tried by one rule, `Evaluation.decideAmong`, and what is true of both
loops is shown of that one. `Evaluation.tried` lists the conditions that it comes to; the last of
them gives the outcome (`Evaluation.run_decideAmong`).
-/

namespace Criteria

/-- The other connective. -/
def Connective.dual : Connective → Connective
  | .and => .or
  | .or => .and

/-- The other quantifier. -/
def Quantifier.dual : Quantifier → Quantifier
  | .any => .all
  | .all => .any

theorem Connective.decider_dual (c : Connective) : c.dual.decider = !c.decider := by
  cases c <;> rfl

theorem Quantifier.decider_dual (q : Quantifier) : q.dual.decider = !q.decider := by
  cases q <;> rfl

namespace Logic

/-- The negation of an expression. -/
def negate (value : Json) : Json := .object [("!", value)]

/-- The operands of a connective, each negated; what is no list is the only operand. -/
def negateOperands : Json → Json
  | .array items => .array (items.map negate)
  | operand => negate operand

end Logic

namespace Evaluation

open Logic

variable {payload : Value} {scope : Scope}

theorem eval_negate (value : Json) (scope : Scope) :
    eval payload (negate value) scope = (do return .bool !(← truth payload value scope)) := by
  rw [negate, eval_not]

theorem truth_negate (value : Json) (scope : Scope) :
    truth payload (negate value) scope = (do return !(← truth payload value scope)) := by
  rw [truth, eval_negate]
  simp only [bind_assoc, pure_bind, Value.truthy]

/-! ## Trying conditions -/

/-- Tries conditions, each inside its elements, in order until the truth of one decides. -/
def decideAmong (payload : Value) (decider : Bool) : List (Json × Scope) → Evaluation Bool
  | [] => return !decider
  | (part, scope) :: rest => do
    if (← truth payload part scope) = decider then return decider
    else decideAmong payload decider rest

/-- The conditions that are come to, each with what the evaluation left behind until then. -/
def tried (payload : Value) (decider : Bool) : List (Json × Scope) → Trace → List Visit
  | [], _ => []
  | (part, scope) :: rest, trace =>
    ⟨part, scope, trace⟩ :: visitsAfter (truth payload part scope) trace fun b next =>
      if b = decider then [] else tried payload decider rest next

/-- **The last condition that is tried gives the outcome**, of the whole and of its trace. -/
theorem run_decideAmong (decider : Bool) (conditions : List (Json × Scope)) (trace : Trace) :
    (decideAmong payload decider conditions).run trace =
      match (tried payload decider conditions trace).getLast? with
      | some last => (truth payload last.part last.scope).run last.trace
      | none => (.ok !decider, trace) := by
  induction conditions generalizing trace with
  | nil => rfl
  | cons condition rest ih =>
    obtain ⟨part, scope⟩ := condition
    rw [decideAmong, tried, run_bind, visitsAfter, List.getLast?_cons]
    rcases hrun : (truth payload part scope).run trace with ⟨error | b, next⟩
    · exact hrun.symm
    · dsimp only
      by_cases hb : b = decider
      · rw [if_pos hb, if_pos hb, ← hb]
        exact hrun.symm
      · rw [if_neg hb, if_neg hb, ih]
        rcases (tried payload decider rest next).getLast? with _ | last
        · rw [show (!decider) = b by cases b <;> cases decider <;> simp_all]
          exact hrun.symm
        · rfl

theorem evalFirst_eq_decideAmong (decider : Bool) (items : List Json) (scope : Scope) :
    evalFirst payload decider items scope =
      decideAmong payload decider (items.map fun item => (item, scope)) := by
  induction items with
  | nil => rfl
  | cons item rest ih => rw [evalFirst_cons, List.map_cons, decideAmong, ih]

theorem decideFirst_eq_decideAmong (decider : Bool) (predicate : Json) (name : String)
    (scope : Scope) (items : List Value) :
    decideFirst decider (fun item => truth payload predicate (⟨item, some name⟩ :: scope)) items =
      decideAmong payload decider
        (items.map fun item => (predicate, ⟨item, some name⟩ :: scope)) := by
  induction items with
  | nil => rfl
  | cons item rest ih => rw [decideFirst, List.map_cons, decideAmong, ih]

/-! ## Trying negations -/

/-- The condition negated, inside the same elements. -/
def negateCondition (condition : Json × Scope) : Json × Scope := (negate condition.1, condition.2)

/-- The visit of the negation instead. -/
def Visit.negate (visit : Visit) : Visit := { visit with part := Logic.negate visit.part }

theorem not_eq_not_iff (b decider : Bool) : (!b) = (!decider) ↔ b = decider := by
  cases b <;> cases decider <;> decide

/-- **Negations are decided by the other truth value**, as the conditions themselves are. -/
theorem decideAmong_negate (decider : Bool) (conditions : List (Json × Scope)) :
    decideAmong payload (!decider) (conditions.map negateCondition) = (do
      return !(← decideAmong payload decider conditions)) := by
  induction conditions with
  | nil => rfl
  | cons condition rest ih =>
    obtain ⟨part, scope⟩ := condition
    rw [List.map_cons, negateCondition, decideAmong, decideAmong, truth_negate, ih]
    simp only [bind_assoc, pure_bind, not_eq_not_iff]
    congr 1
    funext b
    split
    · rw [pure_bind]
    · rfl

/-- **The same conditions are tried when all of them are negated**, after the same traces. -/
theorem tried_negate (decider : Bool) (conditions : List (Json × Scope)) (trace : Trace) :
    tried payload (!decider) (conditions.map negateCondition) trace =
      (tried payload decider conditions trace).map Visit.negate := by
  induction conditions generalizing trace with
  | nil => rfl
  | cons condition rest ih =>
    obtain ⟨part, scope⟩ := condition
    rw [List.map_cons, negateCondition, tried, tried, List.map_cons, visitsAfter, visitsAfter,
      truth_negate, run_bind]
    refine congrArg (Visit.mk (Logic.negate part) scope trace :: ·) ?_
    rcases (truth payload part scope).run trace with ⟨error | b, next⟩
    · rfl
    · change (if (!b) = (!decider) then _ else _) = _
      simp only [not_eq_not_iff]
      split
      · rfl
      · exact ih next

/-! ## Connectives and quantifiers -/

/-- The operands that a connective comes to. -/
def triedOperands (payload : Value) (c : Connective) (items : List Json) (scope : Scope)
    (trace : Trace) : List Visit :=
  tried payload c.decider (items.map fun item => (item, scope)) trace

/-- The elements that a quantifier comes to: its predicate inside each of them. -/
def triedElements (payload : Value) (q : Quantifier) (source predicate : Json) (more : List Json)
    (scope : Scope) (trace : Trace) : List Visit :=
  visitsAfter (elementsOf payload q source scope) trace fun items next =>
    tried payload q.decider
      (items.map fun item => (predicate, ⟨item, some (aliasName more)⟩ :: scope)) next

/-- Two failures are the same, or a quantifier and its dual have a collection that is no array. -/
def SameUpToName (q : Quantifier) (path : Option String) (error error' : EvaluationError) : Prop :=
  error = error' ∨
    ∃ kind, error = .notAnArray q path kind ∧ error' = .notAnArray q.dual path kind

/-- A quantifier and its dual range over the same elements. -/
theorem paired_elements_dual (q : Quantifier) (path : Option String) (value : Value) :
    Paired (SameUpToName q path) Eq (elements q path value) (elements q.dual path value) := by
  have hfails (kind : String) :
      SameUpToName q path (.notAnArray q path kind) (.notAnArray q.dual path kind) :=
    .inr ⟨kind, rfl, rfl⟩
  cases value with
  | missing => exact .ok rfl
  | array => exact .ok rfl
  | object => exact .error (hfails _)
  | scalar value =>
    cases value with
    | null => exact .ok rfl
    | _ => exact .error (hfails _)

/-- The collections of a quantifier and of its dual are evaluated alike. -/
theorem lockstep_elementsOf_dual (q : Quantifier) (source : Json) (scope : Scope) :
    Lockstep Eq (SameUpToName q (referencePath? source)) Eq (elementsOf payload q source scope)
      (elementsOf payload q.dual source scope) := by
  refine .bind (.self (fun _ => .inl rfl) _) ?_
  rintro value _ rfl -
  exact .lift (paired_elements_dual q _ value)

/-- The negated operands are the negations of the conditions. -/
theorem map_negate_operands (items : List Json) (scope : Scope) :
    (items.map negate).map (fun item => (item, scope)) =
      (items.map fun item => (item, scope)).map negateCondition := by
  simp only [List.map_map]
  rfl

/-- The negated predicate inside the elements is the negation of the conditions. -/
theorem map_negate_elements (predicate : Json) (name : String) (scope : Scope)
    (items : List Value) :
    (items.map fun item => (negate predicate, (⟨item, some name⟩ :: scope : Scope))) =
      (items.map fun item => (predicate, ⟨item, some name⟩ :: scope)).map negateCondition := by
  simp only [List.map_map]
  rfl

theorem negateOperands_of_ne_array {operand : Json} (h : ∀ items, operand ≠ .array items) :
    negateOperands operand = negate operand := by
  cases operand with
  | array items => exact absurd rfl (h items)
  | _ => rfl

/-- A connective is the negation of its dual of the negations. -/
theorem eval_connective_dual (c : Connective) (operand : Json) (scope : Scope) :
    eval payload (.object [(c.key, operand)]) scope =
      eval payload (negate (.object [(c.dual.key, negateOperands operand)])) scope := by
  by_cases hlist : ∃ items, operand = .array items
  · obtain ⟨items, rfl⟩ := hlist
    rw [eval_negate, truth, negateOperands, eval_connective, eval_connective,
      evalFirst_eq_decideAmong, evalFirst_eq_decideAmong, map_negate_operands, c.decider_dual,
      decideAmong_negate]
    simp only [bind_assoc, pure_bind, Value.truthy, Bool.not_not]
  · have hsingle : ∀ items, operand ≠ .array items := fun items h => hlist ⟨items, h⟩
    have hnegated : ∀ items, negate operand ≠ .array items := by
      intro items h
      cases h
    rw [eval_negate, truth, negateOperands_of_ne_array hsingle, eval_single _ hsingle,
      eval_single _ hnegated, eval_negate]
    simp only [truth, bind_assoc, pure_bind, Value.truthy, Bool.not_not]

/-- A quantifier is the negation of its dual with the negated predicate. -/
theorem lockstep_quantify_dual (q : Quantifier) (source predicate : Json) {more : List Json}
    (h : more.length ≤ 1) (scope : Scope) :
    Lockstep Eq (SameUpToName q (referencePath? source)) Eq
      (eval payload (.object [(q.symbol, .array (source :: predicate :: more))]) scope)
      (eval payload (negate
        (.object [(q.dual.symbol, .array (source :: negate predicate :: more))])) scope) := by
  rw [eval_negate, truth, eval_quantify_elementsOf q _ _ h, eval_quantify_elementsOf q.dual _ _ h]
  simp only [bind_assoc, pure_bind, Value.truthy]
  refine .bind (lockstep_elementsOf_dual q source scope) ?_
  rintro items _ rfl -
  rw [decideFirst_eq_decideAmong, decideFirst_eq_decideAmong, map_negate_elements, q.decider_dual,
    decideAmong_negate]
  simp only [bind_assoc, pure_bind, Bool.not_not]
  exact .self (fun _ => .inl rfl) _

/-- A quantifier and its dual come to the same elements. -/
theorem triedElements_dual (q : Quantifier) (source predicate : Json) (more : List Json)
    (scope : Scope) (trace : Trace) :
    triedElements payload q.dual source (negate predicate) more scope trace =
      (triedElements payload q source predicate more scope trace).map Visit.negate := by
  obtain ⟨hpaired, hnext⟩ :=
    @lockstep_elementsOf_dual payload q source scope trace trace rfl
  rw [triedElements, triedElements, visitsAfter, visitsAfter]
  rcases hrun : (elementsOf payload q source scope).run trace with ⟨error | items, next⟩ <;>
    rcases hdual : (elementsOf payload q.dual source scope).run trace with ⟨error' | items', next'⟩ <;>
    rw [hrun, hdual] at hpaired hnext
  · rfl
  · cases hpaired
  · cases hpaired
  · cases hpaired with | ok hitems =>
    obtain rfl : next = next' := hnext
    subst hitems
    dsimp only
    rw [map_negate_elements, q.decider_dual, tried_negate]

/-- **Duality.** A connective is the negation of its dual of the negated operands, and a quantifier
the negation of its dual with the negated predicate, whatever was evaluated before: they give the
same truth or fail with the same error, but for the name of the quantifier whose collection is no
array, they leave the same reads behind, and they come to the same operands and elements. -/
theorem eval_dual (payload : Value) (scope : Scope) :
    (∀ (c : Connective) (operand : Json),
      eval payload (.object [(c.key, operand)]) scope =
        eval payload (negate (.object [(c.dual.key, negateOperands operand)])) scope) ∧
    (∀ (c : Connective) (items : List Json) (trace : Trace),
      triedOperands payload c.dual (items.map negate) scope trace =
        (triedOperands payload c items scope trace).map Visit.negate) ∧
    (∀ (q : Quantifier) (source predicate : Json) (binder : Option Json) (trace : Trace),
      let run := (eval payload (.object
        [(q.symbol, .array (source :: predicate :: binder.toList))]) scope).run trace
      let dual := (eval payload (negate (.object
        [(q.dual.symbol, .array (source :: negate predicate :: binder.toList))])) scope).run trace
      Paired (SameUpToName q (referencePath? source)) Eq run.1 dual.1 ∧ run.2 = dual.2) ∧
    ∀ (q : Quantifier) (source predicate : Json) (binder : Option Json) (trace : Trace),
      triedElements payload q.dual source (negate predicate) binder.toList scope trace =
        (triedElements payload q source predicate binder.toList scope trace).map Visit.negate := by
  refine ⟨fun c operand => eval_connective_dual c operand scope, fun c items trace => ?_,
    fun q source predicate binder trace => ?_, fun q source predicate binder trace =>
      triedElements_dual q source predicate binder.toList scope trace⟩
  · rw [triedOperands, triedOperands, c.decider_dual, ← tried_negate, map_negate_operands]
  · have hmore : binder.toList.length ≤ 1 := by cases binder <;> simp
    exact lockstep_quantify_dual q source predicate hmore scope trace trace rfl

end Evaluation

end Criteria
