import Criteria.Evaluation.Evaluator
import Criteria.Logic.Compile
import Criteria.Proofs.Evaluation.Errors
import Criteria.Proofs.Evaluation.Runs
import Criteria.Proofs.Expr.WellFormed
import Criteria.Proofs.Token.Lexes

/-!
# The meaning of conditions

`Expr.interpret` is the meaning of a condition, given on its syntax tree: a connective evaluates its
right operand only when the left one does not decide, and a quantifier tries the elements of its
collection in order. Evaluating the JSON-Logic of a condition is interpreting the condition
(`Evaluation.eval_toLogic`): values, failures and traces agree, although chains of a connective have
become one list of operands. A condition fails only on the data
(`Expr.interpret_failsOnData`), never as a malformed expression.
-/

namespace Criteria

open Evaluation

/-! ## The interpreter -/

namespace Expr

/-- The path of a condition that is a variable. -/
def path? : Expr → Option String
  | .reference path _ => some path
  | _ => none

/-- The value of a condition inside the given elements. -/
def interpret (payload : Value) : Expr → Scope → Evaluation Value
  | .literal value _, _ => return .scalar value
  | .reference path _, scope => readVariable payload scope path
  | .not argument _ _, scope => do return .bool !(← interpret payload argument scope).truthy
  | .binary (.logical c) left right _ _, scope => do
    if (← interpret payload left scope).truthy = c.decider then return .bool c.decider
    else return .bool (← interpret payload right scope).truthy
  | .binary (.compare c) left right _ _, scope => do
    let l ← interpret payload left scope
    let r ← interpret payload right scope
    return .bool (← lift (compareValues c l r))
  | .quantified q collection predicate binder _, scope => do
    let items ← lift (elements q collection.path? (← interpret payload collection scope))
    return .bool (← decideFirst q.decider
      (fun item => do
        return (← interpret payload predicate (⟨item, some binder.name⟩ :: scope)).truthy) items)

/-- The JSON-Logic of a condition has the same aliases; blank ones would count as left out. -/
def AliasesKept : Expr → Prop
  | .literal .. => True
  | .reference .. => True
  | .not argument _ _ => argument.AliasesKept
  | .binary _ left right _ _ => left.AliasesKept ∧ right.AliasesKept
  | .quantified _ collection predicate binder _ =>
    collection.AliasesKept ∧ predicate.AliasesKept ∧
      Logic.aliasName [.string binder.name] = binder.name

end Expr

/-! ## Lists of operands -/

namespace Evaluation

variable {payload : Value}

theorem evalFirst_append (decider : Bool) (xs ys : List Json) (scope : Scope) :
    evalFirst payload decider (xs ++ ys) scope = (do
      if (← evalFirst payload decider xs scope) = decider then return decider
      else evalFirst payload decider ys scope) := by
  induction xs with
  | nil =>
    rw [List.nil_append, evalFirst, pure_bind, if_neg (by cases decider <;> decide)]
  | cons x xs ih =>
    rw [List.cons_append, evalFirst, evalFirst, ih, bind_assoc]
    congr 1
    funext value
    split
    · rw [pure_bind, if_pos rfl]
    · rfl

theorem eval_connective (c : Connective) (items : List Json) (scope : Scope) :
    eval payload (.object [(c.key, .array items)]) scope = (do
      return .bool (← evalFirst payload c.decider items scope)) := by
  cases c <;> rfl

/-- **The operands that an operand contributes decide as the operand does.** -/
theorem evalFirst_operands (c : Connective) (value : Json) (scope : Scope) :
    evalFirst payload c.decider (c.operands value) scope =
      (do return (← eval payload value scope).truthy) := by
  rcases c.operands_cases value with hsingle | hchain
  · rw [hsingle, evalFirst]
    congr 1
    funext v
    rw [evalFirst]
    generalize v.truthy = b
    cases b <;> cases c <;> rfl
  · rw [congrArg (eval payload · scope) hchain, eval_connective, bind_assoc]
    simp only [pure_bind, Value.truthy, bind_pure]

/-! ## Evaluating compiled conditions -/

theorem referencePath?_toLogic (e : Expr) : Logic.referencePath? e.toLogic = e.path? := by
  cases e with
  | binary op =>
    cases op with
    | logical c => cases c <;> rfl
    | compare c => cases c <;> rfl
  | quantified q => cases q <;> rfl
  | _ => rfl

theorem aliasName_of_isWord {name : String} (h : IsWord name) :
    Logic.aliasName [.string name] = name := by
  obtain ⟨first, rest, hname, hfirst, -⟩ := h
  have hblank : Text.allBlank name = false := by
    rw [Text.allBlank, hname, List.all_cons,
      isBlank_of_isNameChar (isNameChar_of_isNameStart hfirst), Bool.false_and]
  rw [Logic.aliasName, Logic.givenAlias?, hblank]
  rfl

theorem aliasName_of_isName {name : String} (h : IsName name) :
    Logic.aliasName [.string name] = name :=
  aliasName_of_isWord h.1

theorem eval_variable {operand : Json} {path : String}
    (h : Logic.variablePath? operand = some path) (scope : Scope) :
    eval payload (.object [("var", operand)]) scope = readVariable payload scope path := by
  unfold eval
  simp only [h]
  rfl

theorem eval_compare (c : Comparison) (left right : Json) (scope : Scope) :
    eval payload (.object [(c.symbol, .array [left, right])]) scope = (do
      let l ← eval payload left scope
      let r ← eval payload right scope
      return .bool (← lift (compareValues c l r))) := by
  cases c <;> rfl

/-- A compiled quantifier gives its alias, written out or not. -/
theorem aliasName_written {binder : Alias}
    (h : Logic.aliasName [.string binder.name] = binder.name) :
    Logic.aliasName (if binder.written || binder.name != defaultAlias
      then [.string binder.name] else []) = binder.name := by
  split
  · exact h
  · rename_i hunwritten
    rw [Bool.or_eq_true, not_or, bne_iff_ne, not_not] at hunwritten
    rw [hunwritten.2]
    rfl

theorem eval_quantify (q : Quantifier) (source predicate : Json) {more : List Json}
    (h : more.length ≤ 1) (scope : Scope) :
    eval payload (.object [(q.symbol, .array (source :: predicate :: more))]) scope = (do
      let items ← lift (elements q (Logic.referencePath? source) (← eval payload source scope))
      return .bool (← decideFirst q.decider
        (fun item => do
          return (← eval payload predicate
            (⟨item, some (Logic.aliasName more)⟩ :: scope)).truthy)
        items)) := by
  match more with
  | [] => cases q <;> rfl
  | [_] => cases q <;> rfl
  | _ :: _ :: _ => simp at h

theorem aliasesKept_of_wellFormed {e : Expr} (h : e.WellFormed) : e.AliasesKept := by
  induction e with
  | literal => trivial
  | reference => trivial
  | not _ _ _ ih => exact ih h
  | binary _ _ _ _ _ ihl ihr => exact ⟨ihl h.1, ihr h.2⟩
  | quantified _ _ _ _ _ ihc ihp => exact ⟨ihc h.1, ihp h.2.1, aliasName_of_isName h.2.2.1⟩

/-- **Evaluating the JSON-Logic of a condition is interpreting the condition.** Values, failures and
traces agree. -/
theorem eval_toLogic {e : Expr} (h : e.AliasesKept) (payload : Value) (scope : Scope) :
    eval payload e.toLogic scope = e.interpret payload scope := by
  induction e generalizing scope with
  | literal => rfl
  | reference => rfl
  | not argument _ _ ih =>
    rw [Expr.interpret, ← ih h]
    rfl
  | binary op left right _ _ ihl ihr =>
    cases op with
    | logical c =>
      rw [Expr.toLogic, eval_connective, evalFirst_append, evalFirst_operands, evalFirst_operands,
        ihl h.1, ihr h.2, Expr.interpret]
      simp only [bind_assoc, pure_bind]
      congr 1
      funext value
      split
      · rw [pure_bind]
      · rw [bind_assoc]
        simp only [pure_bind]
    | compare c => rw [Expr.toLogic, eval_compare, ihl h.1, ihr h.2, Expr.interpret]
  | quantified q collection predicate binder _ ihc ihp =>
    rw [Expr.toLogic, eval_quantify _ _ _ (by split <;> simp),
      aliasName_written h.2.2, ihc h.1, Expr.interpret,
      referencePath?_toLogic]
    simp only [ihp h.2.1]

end Evaluation

/-! ## Failures -/

namespace Evaluation

/-- A computation fails on the data only. -/
def FailsOnData {α : Type} (x : Evaluation α) : Prop :=
  ∀ trace error, (x.run trace).1 = .error error → error.IsOfData

/-- Reading a variable notes its path when no element around serves it. -/
theorem Keeps.readVariable {I : Trace → Prop} {E : EvaluationError → Prop} {payload : Value}
    {scope : Scope} {path : String}
    (hnumeric : ∀ error : EvaluationError, error.isNumeric = true → E error)
    (hnote : scope.resolve path = .ok none → ∀ value trace, I trace → I (trace.note path value)) :
    Keeps I E (readVariable payload scope path) := by
  refine .bind (.lift fun error h => hnumeric error (Scope.resolve_error h).isNumeric) fun found hfound => ?_
  cases found with
  | some value => exact .pure value
  | none =>
    obtain ⟨_, hfound⟩ := hfound
    refine .bind (.lift fun error h => hnumeric error (Value.read_error h).isNumeric) fun value _ => ?_
    refine .bind (fun trace hI => ?_) fun _ _ => .pure _
    exact ⟨hnote hfound _ trace hI, fun _ h => nomatch h⟩

end Evaluation

/-! ## Where an interpretation comes to -/

namespace Expr

/-- The elements of the array that a condition evaluates to; other values have none. -/
def itemsIn (payload : Value) (scope : Scope) (e : Expr) : List Value :=
  match ((e.interpret payload scope).run Trace.start).1 with
  | .ok (.array _ items) => items
  | _ => []

/-- The nodes of a condition with the elements around them, which an interpretation comes to when no
operand and no element is left out. -/
def visits (payload : Value) : Expr → Scope → List (Expr × Scope)
  | e@(.literal ..), scope => [(e, scope)]
  | e@(.reference ..), scope => [(e, scope)]
  | e@(.not argument _ _), scope => (e, scope) :: argument.visits payload scope
  | e@(.binary _ left right _ _), scope =>
    (e, scope) :: (left.visits payload scope ++ right.visits payload scope)
  | e@(.quantified _ collection predicate binder _), scope =>
    (e, scope) :: (collection.visits payload scope ++
      (collection.itemsIn payload scope).flatMap fun item =>
        predicate.visits payload (⟨item, some binder.name⟩ :: scope))

theorem mem_visits_self (payload : Value) (e : Expr) (scope : Scope) :
    (e, scope) ∈ e.visits payload scope := by
  cases e <;> exact List.mem_cons_self ..

/-- Two conditions, inside elements of their own, differ in variables and aliases only, and the
variables are read in lockstep. -/
inductive Parallel (payload : Value) (R : Trace → Trace → Prop)
    (E : EvaluationError → EvaluationError → Prop) : Expr → Scope → Expr → Scope → Prop
  | literal {value : Scalar} {span span' : Option Span} {scope scope' : Scope} :
    Parallel payload R E (.literal value span) scope (.literal value span') scope'
  | reference {path path' : String} {span span' : Option Span} {scope scope' : Scope}
    (h : Lockstep R E Eq (readVariable payload scope path) (readVariable payload scope' path')) :
    Parallel payload R E (.reference path span) scope (.reference path' span') scope'
  | not {e e' : Expr} {s t s' t' : Option Span} {scope scope' : Scope}
    (h : Parallel payload R E e scope e' scope') :
    Parallel payload R E (.not e s t) scope (.not e' s' t') scope'
  | binary {op : BinaryOp} {l r l' r' : Expr} {s t s' t' : Option Span} {scope scope' : Scope}
    (hl : Parallel payload R E l scope l' scope') (hr : Parallel payload R E r scope r' scope') :
    Parallel payload R E (.binary op l r s t) scope (.binary op l' r' s' t') scope'
  | quantified {q : Quantifier} {c p c' p' : Expr} {binder binder' : Alias}
    {spans spans' : QuantifierSpans} {scope scope' : Scope}
    (hc : Parallel payload R E c scope c' scope')
    (hpath : ∀ kind, E (.notAnArray q c.path? kind) (.notAnArray q c'.path? kind))
    (hp : ∀ value items, Yields (c.interpret payload scope) value →
      elements q c.path? value = .ok items → ∀ item ∈ items,
        Parallel payload R E p (⟨item, some binder.name⟩ :: scope) p'
          (⟨item, some binder'.name⟩ :: scope')) :
    Parallel payload R E (.quantified q c p binder spans) scope
      (.quantified q c' p' binder' spans') scope'

section

variable {payload : Value} {R : Trace → Trace → Prop}
  {E : EvaluationError → EvaluationError → Prop}

/-- An outcome that can only fail for a number is paired with itself. -/
theorem paired_self {α : Type} {outcome : Except EvaluationError α}
    (hnumeric : ∀ error : EvaluationError, error.isNumeric = true → E error error)
    (h : ∀ error, outcome = .error error → error.isNumeric = true) : Paired E Eq outcome outcome :=
  match outcome with
  | .ok _ => .ok rfl
  | .error error => .error (hnumeric error (h error rfl))

/-- Variables are read in lockstep when the elements around serve the same, or the payload does. -/
theorem readVariable_lockstep {scope scope' : Scope} {path path' : String}
    (hnumeric : ∀ error : EvaluationError, error.isNumeric = true → E error error)
    (hresolve : scope'.resolve path' = scope.resolve path)
    (hread : scope.resolve path = .ok none → payload.read path' = payload.read path)
    (hnote : ∀ value s t, R s t → R (s.note path value) (t.note path' value)) :
    Lockstep R E Eq (readVariable payload scope path) (readVariable payload scope' path') := by
  rw [readVariable, readVariable, hresolve]
  refine .bind (.lift (paired_self hnumeric fun _ h => (Scope.resolve_error h).isNumeric)) ?_
  rintro found _ rfl hfound
  cases found with
  | some value => exact .pure rfl
  | none =>
    obtain ⟨_, hfound⟩ := hfound
    simp only [hread hfound]
    refine .bind (.lift (paired_self hnumeric fun _ h => (Value.read_error h).isNumeric)) ?_
    rintro value _ rfl -
    exact .bind (V := Eq) (fun s t hR => ⟨.ok rfl, hnote _ s t hR⟩) fun _ _ _ _ => .pure rfl

/-- **Conditions that differ in variables and aliases only are interpreted in lockstep.** -/
theorem Parallel.lockstep
    (hnumeric : ∀ error : EvaluationError, error.isNumeric = true → E error error) {e e' : Expr}
    {scope scope' : Scope} (h : Parallel payload R E e scope e' scope') :
    Lockstep R E Eq (e.interpret payload scope) (e'.interpret payload scope') := by
  induction h with
  | literal => exact .pure rfl
  | reference h => exact h
  | not _ ih =>
    refine .bind ih ?_
    rintro value _ rfl -
    exact .pure rfl
  | @binary op _ _ _ _ _ _ _ _ _ _ _ _ ihl ihr =>
    cases op with
    | logical c =>
      refine .bind ihl ?_
      rintro value _ rfl -
      split
      · exact .pure rfl
      · refine .bind ihr ?_
        rintro value _ rfl -
        exact .pure rfl
    | compare c =>
      refine .bind ihl ?_
      rintro l _ rfl -
      refine .bind ihr ?_
      rintro r _ rfl -
      refine .bind (.lift (paired_self hnumeric fun _ => isNumeric_of_compareValues)) ?_
      rintro b _ rfl -
      exact .pure rfl
  | @quantified q _ _ _ _ _ _ _ _ _ _ _ hpath _ ihc ihp =>
    refine .bind ihc ?_
    rintro value _ rfl hvalue
    refine .bind (V := Eq) (.lift ?_) ?_
    · unfold elements
      split
      · exact .ok rfl
      · exact .ok rfl
      · exact .ok rfl
      · exact .error (hpath _)
    rintro items _ rfl ⟨_, hitems⟩
    refine .bind (.decideFirst (List.forall₂_same.2 fun item hitem =>
      .bind (ihp value items hvalue hitems item hitem) ?_)) ?_
    · rintro v _ rfl -
      exact .pure rfl
    · rintro b _ rfl -
      exact .pure rfl

theorem parallel_self {e : Expr}
    (hnumeric : ∀ error : EvaluationError, error.isNumeric = true → E error error)
    (hpath : ∀ c : Expr, c.references ⊆ e.references → ∀ q kind,
      E (.notAnArray q c.path? kind) (.notAnArray q c.path? kind))
    (hnote : ∀ read ∈ e.references, ∀ value s t,
      R s t → R (s.note read.1 value) (t.note read.1 value))
    (scope : Scope) : Parallel payload R E e scope e scope := by
  induction e generalizing scope with
  | literal => exact .literal
  | reference path span =>
    exact .reference (readVariable_lockstep hnumeric rfl (fun _ => rfl)
      (hnote (path, span) (List.mem_singleton.2 rfl)))
  | not _ _ _ ih => exact .not (ih hpath hnote scope)
  | binary _ _ _ _ _ ihl ihr =>
    obtain ⟨hleft, hright⟩ := List.forall_mem_append.1 hnote
    exact .binary (ihl (fun c h => hpath c (List.subset_append_of_subset_left _ h)) hleft scope)
      (ihr (fun c h => hpath c (List.subset_append_of_subset_right _ h)) hright scope)
  | quantified _ _ _ _ _ ihc ihp =>
    obtain ⟨hcollection, hpredicate⟩ := List.forall_mem_append.1 hnote
    have hpathc := fun c h => hpath c (List.subset_append_of_subset_left _ h)
    have hpathp := fun c h => hpath c (List.subset_append_of_subset_right _ h)
    exact .quantified (ihc hpathc hcollection scope) (hpathc _ (List.Subset.refl _) _)
      fun _ _ _ _ _ _ => ihp hpathp hpredicate _

end

/-- **What was read before does not matter** for what a condition evaluates to. -/
theorem interpret_lockstep_self (payload : Value) (e : Expr) (scope : Scope) :
    Lockstep (fun _ _ => True) Eq Eq (e.interpret payload scope) (e.interpret payload scope) :=
  (parallel_self (fun _ _ => rfl) (fun _ _ _ _ => rfl) (fun _ _ _ _ _ _ => trivial) scope).lockstep
    fun _ _ => rfl

theorem elements_ok {q : Quantifier} {path : Option String} {value : Value} {items : List Value}
    (h : elements q path value = .ok items) : items = [] ∨ ∃ mark, value = .array mark items := by
  unfold elements at h
  split at h
  · cases h
    exact .inl rfl
  · cases h
    exact .inl rfl
  · cases h
    exact .inr ⟨_, rfl⟩
  · cases h

/-- The elements that a quantifier ranges over are those of its collection. -/
theorem mem_itemsIn {payload : Value} {scope : Scope} {e : Expr} {q : Quantifier}
    {path : Option String} {value item : Value} {items : List Value}
    (hvalue : Yields (e.interpret payload scope) value) (hitems : elements q path value = .ok items)
    (hitem : item ∈ items) : item ∈ e.itemsIn payload scope := by
  obtain ⟨trace, hrun⟩ := hvalue
  have hsame := (interpret_lockstep_self payload e scope trace Trace.start trivial).1
  rw [hrun] at hsame
  rcases elements_ok hitems with rfl | ⟨mark, rfl⟩
  · cases hitem
  · rw [itemsIn]
    generalize ((e.interpret payload scope).run Trace.start).1 = outcome at hsame
    cases hsame with | ok h => exact h ▸ hitem

/-- What a node does by itself keeps a property of traces and fails with certain errors only: it
reads a variable, or lists the elements of a collection. -/
def KeepsAt (payload : Value) (I : Trace → Prop) (E : EvaluationError → Prop) :
    Expr × Scope → Prop
  | (.reference path _, scope) => Keeps I E (readVariable payload scope path)
  | (.quantified q collection _ _ _, scope) =>
    ∀ value, Yields (collection.interpret payload scope) value →
      ∀ error, elements q collection.path? value = .error error → E error
  | _ => True

/-- **What an interpretation does, it does at the nodes that it comes to.** -/
theorem interpret_keeps {payload : Value} {I : Trace → Prop} {E : EvaluationError → Prop}
    (hnumeric : ∀ error : EvaluationError, error.isNumeric = true → E error) {e : Expr}
    {scope : Scope} (h : ∀ visit ∈ e.visits payload scope, KeepsAt payload I E visit) :
    Keeps I E (e.interpret payload scope) := by
  induction e generalizing scope with
  | literal => exact .pure _
  | reference => exact h _ (mem_visits_self ..)
  | not _ _ _ ih => exact .bind (ih (List.forall_mem_cons.1 h).2) fun _ _ => .pure _
  | binary op left right _ _ ihl ihr =>
    obtain ⟨-, hboth⟩ := List.forall_mem_cons.1 h
    obtain ⟨hleft, hright⟩ := List.forall_mem_append.1 hboth
    cases op with
    | logical c =>
      refine .bind (ihl hleft) fun value _ => ?_
      split
      · exact .pure _
      · exact .bind (ihr hright) fun _ _ => .pure _
    | compare c =>
      refine .bind (ihl hleft) fun l _ => .bind (ihr hright) fun r _ => ?_
      exact .bind (.lift fun error herror => hnumeric error (isNumeric_of_compareValues herror))
        fun _ _ => .pure _
  | quantified q collection predicate binder _ ihc ihp =>
    obtain ⟨hnode, hinside⟩ := List.forall_mem_cons.1 h
    obtain ⟨hcollection, hpredicate⟩ := List.forall_mem_append.1 hinside
    refine .bind (ihc hcollection) fun value hvalue => ?_
    refine .bind (.lift (hnode value hvalue)) fun items hitems => ?_
    obtain ⟨_, hitems⟩ := hitems
    refine .bind (.decideFirst fun item hitem => .bind (ihp ?_) fun _ _ => .pure _)
      fun _ _ => .pure _
    exact List.forall_mem_flatMap.1 hpredicate item (mem_itemsIn hvalue hitems hitem)

end Expr

/-! ## The meaning of compiled conditions -/

namespace Expr

/-- **A condition fails on the data only.** -/
theorem interpret_failsOnData (payload : Value) (e : Expr) (scope : Scope) :
    FailsOnData (e.interpret payload scope) := by
  have hnumeric : ∀ error : EvaluationError, error.isNumeric = true → error.IsOfData :=
    fun _ => EvaluationError.isOfData_of_isNumeric
  have hkeeps : Keeps (fun _ => True) EvaluationError.IsOfData (e.interpret payload scope) := by
    refine interpret_keeps hnumeric fun visit _ => ?_
    match visit with
    | (.reference .., _) => exact .readVariable hnumeric fun _ _ _ _ => trivial
    | (.quantified .., _) =>
      intro value _ error herror
      rw [elements_error herror]
      trivial
    | (.literal .., _) => trivial
    | (.not .., _) => trivial
    | (.binary .., _) => trivial
  exact fun trace error => (hkeeps trace trivial).2 error

/-- **Compiling a condition keeps its meaning.** On every payload, inside every scope and after
every trace, its JSON-Logic evaluates to what the condition means, with the same reads, and it fails
on the data only. -/
theorem eval_compiled {e : Expr} (h : e.WellFormed) (payload : Value) (scope : Scope)
    (trace : Trace) :
    (eval payload e.toLogic scope).run trace = (e.interpret payload scope).run trace ∧
      ∀ error, ((eval payload e.toLogic scope).run trace).1 = .error error → error.IsOfData := by
  rw [eval_toLogic (aliasesKept_of_wellFormed h)]
  exact ⟨rfl, interpret_failsOnData payload e scope trace⟩

/-- A conjunction nested to the right, whose last operand is about the elements of an array. -/
def guarded : Expr :=
  .binary (.logical .and) (.reference "a" none)
    (.binary (.logical .and) (.reference "b" none)
      (.quantified .any (.reference "c" none)
        (.binary (.compare .eq) (.reference "item.kind" none) (.reference "wanted" none) none none)
        ⟨"item", false⟩ {})
      none none) none none

theorem guarded_wellFormed : guarded.WellFormed := by decide

/-- Data on which the first two elements do not decide, and the third does. -/
def guardedPayload : Value :=
  .ofJson ⟨0, []⟩ (.object [("a", .bool true), ("b", .int 1),
    ("c", .array [.object [("kind", .string "x")], .object [], .object [("kind", .string "y")],
      .null]),
    ("wanted", .string "y")])

theorem eval_compiled_guarded :
    ∃ trace, (eval guardedPayload guarded.toLogic []).run Trace.start = (.ok (.bool true), trace) ∧
      trace.reads.map Prod.fst = ["a", "b", "c", "wanted", "item.kind"] := by
  rw [(eval_compiled guarded_wellFormed guardedPayload [] Trace.start).1]
  exact ⟨_, rfl, rfl⟩

end Expr

end Criteria
