import Criteria.Proofs.Evaluation.Interpreter
import Criteria.Proofs.Evaluation.Scopes
import Criteria.Proofs.Logic.Everywhere

/-!
# The forms of JSON-Logic

Evaluation tells a few forms of expressions apart: literals, connectives of a list or of one
operand, negations, variables, comparisons and quantifiers. Everything else is malformed and fails,
whatever it is run on (`Evaluation.Malformed`). `Evaluation.induction_on_forms` is the induction over
these forms, and each of them has its equation for `eval`. What placing arrays keeps, and noting what
the payload serves at the paths of the expression (`Logic.variablePaths`), every evaluation keeps
(`Evaluation.eval_keeps`).
-/

namespace Criteria

/-! ## Paths -/

namespace Logic

mutual

/-- The paths of the variables in an expression. -/
def variablePaths : Json → List String
  | .scalar _ => []
  | .array items => variablePathsIn items
  | .object [(key, operand)] =>
    if key = "var" then (variablePath? operand).toList else variablePaths operand
  | .object _ => []

/-- The paths of the variables in some expressions. -/
def variablePathsIn : List Json → List String
  | [] => []
  | item :: rest => variablePaths item ++ variablePathsIn rest

end

theorem variablePaths_array (items : List Json) :
    variablePaths (.array items) = items.flatMap variablePaths := by
  rw [variablePaths]
  induction items with
  | nil => rfl
  | cons item rest ih => rw [variablePathsIn, ih, List.flatMap_cons]

theorem variablePaths_object {key : String} (h : key ≠ "var") (operand : Json) :
    variablePaths (.object [(key, operand)]) = variablePaths operand := by
  conv_lhs => unfold variablePaths
  rw [if_neg h]

theorem mem_variablePaths {operand : Json} {path : String} (h : variablePath? operand = some path) :
    path ∈ variablePaths (.object [("var", operand)]) := by
  unfold variablePaths
  rw [if_pos rfl, h]
  exact List.mem_singleton_self _

end Logic

namespace Evaluation

/-! ## Forms -/

/-- The expression has none of the forms that can be evaluated, and fails with the error. -/
inductive Malformed : Json → EvaluationError → Prop
  | unsupported {key : String} {operand : Json} (hkey : Operation.ofKey? key = none) :
      Malformed (.object [(key, operand)]) (.unsupported key)
  | badPath {key : String} {head : Json} {tail : List Json}
      (hkey : Operation.ofKey? key = some .variable)
      (h : Logic.variablePath? (.array (head :: tail)) = none) :
      Malformed (.object [(key, .array (head :: tail))]) .badPath
  | badVariable {key : String} {operand : Json} (hkey : Operation.ofKey? key = some .variable)
      (h : Logic.variablePath? operand = none) (hlist : ∀ head tail, operand ≠ .array (head :: tail)) :
      Malformed (.object [(key, operand)]) .badVariable
  | compare {key : String} {c : Comparison} {operand : Json}
      (hkey : Operation.ofKey? key = some (.compare c))
      (h : ∀ left right, operand ≠ .array [left, right]) :
      Malformed (.object [(key, operand)]) (.comparisonOperands c)
  | quantify {key : String} {q : Quantifier} {operand : Json}
      (hkey : Operation.ofKey? key = some (.quantify q))
      (htwo : ∀ source predicate, operand ≠ .array [source, predicate])
      (hthree : ∀ source predicate third, operand ≠ .array [source, predicate, third]) :
      Malformed (.object [(key, operand)]) (.quantifierOperands q)
  | fields {fields : List (String × Json)} (h : ∀ key operand, fields ≠ [(key, operand)]) :
      Malformed (.object fields) .notOneKey

theorem Malformed.eval_eq {value : Json} {error : EvaluationError} (h : Malformed value error)
    (payload : Value) (scope : Scope) : eval payload value scope = throw error := by
  cases h with
  | unsupported hkey =>
    unfold eval
    rw [hkey]
  | badPath hkey h =>
    unfold eval
    rw [hkey]
    simp only [h]
  | badVariable hkey h hlist =>
    unfold eval
    rw [hkey]
    simp only [h]
  | compare hkey h =>
    unfold eval
    rw [hkey]
    simp only
  | quantify hkey htwo hthree =>
    unfold eval
    rw [hkey]
    simp only
  | @fields fields h =>
    rcases fields with _ | ⟨⟨key, operand⟩, _ | _⟩
    · rfl
    · exact (h key operand rfl).elim
    · rfl

/-- **Induction over the forms of JSON-Logic.** -/
theorem induction_on_forms {P : Json → Prop} (scalar : ∀ value, P (.scalar value))
    (array : ∀ items, (∀ item ∈ items, P item) → P (.array items))
    (connective : ∀ (c : Connective) items, (∀ item ∈ items, P item) →
      P (.object [(c.key, .array items)]))
    (single : ∀ (c : Connective) operand, (∀ items, operand ≠ .array items) → P operand →
      P (.object [(c.key, operand)]))
    (not : ∀ operand, P operand → P (.object [("!", operand)]))
    (var : ∀ operand path, Logic.variablePath? operand = some path →
      P (.object [("var", operand)]))
    (compare : ∀ (c : Comparison) left right, P left → P right →
      P (.object [(c.symbol, .array [left, right])]))
    (quantify : ∀ (q : Quantifier) source predicate more, more.length ≤ 1 → P source →
      P predicate → P (.object [(q.symbol, .array (source :: predicate :: more))]))
    (malformed : ∀ value error, Malformed value error → P value)
    (value : Json) : P value := by
  refine (eval.mutual_induct (fun value _ => P value) (fun _ items _ => ∀ item ∈ items, P item)
    (fun items _ => ∀ item ∈ items, P item)
    ?scalar ?array ?unsupported ?connective ?singleScalar ?singleObject ?not ?var ?badPath
    ?badVariable ?compare ?badCompare ?quantify ?quantifyNamed ?badQuantify ?notOneKey
    ?firstNil ?firstCons ?itemsNil ?itemsCons).1 value []
  case scalar => exact fun value _ => scalar value
  case array => exact fun items _ => array items
  case unsupported => exact fun key operand _ hkey => malformed _ _ (.unsupported hkey)
  case connective =>
    intro key _ c hkey items hitems
    cases ofKey?_eq_some_iff.1 hkey
    exact connective c items hitems
  case singleScalar =>
    intro key _ c hkey v
    cases ofKey?_eq_some_iff.1 hkey
    exact single c _ (fun _ h => Json.noConfusion h) (scalar v)
  case singleObject =>
    intro key _ c hkey fields ih
    cases ofKey?_eq_some_iff.1 hkey
    exact single c _ (fun _ h => Json.noConfusion h) ih
  case not =>
    intro key operand _ hkey ih
    cases ofKey?_eq_some_iff.1 hkey
    exact not operand ih
  case var =>
    intro key operand _ hkey path hpath
    cases ofKey?_eq_some_iff.1 hkey
    exact var operand path hpath
  case badPath => exact fun _ _ hkey _ _ hpath => malformed _ _ (.badPath hkey hpath)
  case badVariable =>
    exact fun _ _ _ hkey hpath hlist => malformed _ _ (.badVariable hkey hpath hlist)
  case compare =>
    intro key _ c hkey left right hl hr
    cases ofKey?_eq_some_iff.1 hkey
    exact compare c left right hl hr
  case badCompare => exact fun _ _ _ _ hkey h => malformed _ _ (.compare hkey h)
  case quantify =>
    intro key _ q hkey source predicate hs hp
    cases ofKey?_eq_some_iff.1 hkey
    exact quantify q source predicate [] (Nat.zero_le 1) hs (hp .missing)
  case quantifyNamed =>
    intro key _ q hkey source predicate third hs hp
    cases ofKey?_eq_some_iff.1 hkey
    exact quantify q source predicate [third] (Nat.le_refl 1) hs (hp .missing)
  case badQuantify =>
    exact fun _ _ _ _ hkey htwo hthree => malformed _ _ (.quantify hkey htwo hthree)
  case notOneKey => exact fun fields _ hfields => malformed _ _ (.fields hfields)
  case firstNil => exact fun _ _ => List.forall_mem_nil _
  case firstCons => exact fun _ _ _ _ h hrest => List.forall_mem_cons.2 ⟨h, hrest⟩
  case itemsNil => exact fun _ => List.forall_mem_nil _
  case itemsCons => exact fun _ _ _ h hrest => List.forall_mem_cons.2 ⟨h, hrest⟩

/-! ## Equations -/

variable {payload : Value}

theorem eval_single (c : Connective) {operand : Json} (h : ∀ items, operand ≠ .array items)
    (scope : Scope) :
    eval payload (.object [(c.key, operand)]) scope = (do
      return .bool (← eval payload operand scope).truthy) := by
  match operand with
  | .array items => exact absurd rfl (h items)
  | .scalar _ => cases c <;> rfl
  | .object _ => cases c <;> rfl

/-! ## Every evaluation -/

section

variable {I : Trace → Prop} {E : EvaluationError → Prop} {items : List Json} {scope : Scope}

theorem evalItems_keeps (h : ∀ item ∈ items, Keeps I E (eval payload item scope)) :
    Keeps I E (evalItems payload items scope) := by
  induction items with
  | nil => exact .pure _
  | cons item rest ih =>
    obtain ⟨hitem, hrest⟩ := List.forall_mem_cons.1 h
    exact .bind hitem fun _ _ => .bind (ih hrest) fun _ _ => .pure _

theorem evalFirst_keeps {decider : Bool} (h : ∀ item ∈ items, Keeps I E (eval payload item scope)) :
    Keeps I E (evalFirst payload decider items scope) := by
  induction items with
  | nil => exact .pure _
  | cons item rest ih =>
    obtain ⟨hitem, hrest⟩ := List.forall_mem_cons.1 h
    refine .bind hitem fun value _ => ?_
    split
    · exact .pure _
    · exact ih hrest

end

/-- **An evaluation keeps what placing arrays keeps, and noting reads** of what the payload serves at
the paths of the expression. -/
theorem eval_keeps {I : Trace → Prop} {E : EvaluationError → Prop} {value : Json}
    (hfails : ∀ error, E error)
    (hnote : ∀ path ∈ Logic.variablePaths value, ∀ found trace, payload.read path = .ok found →
      I trace → I (trace.note path (found.getD .missing).noted))
    (hplace : ∀ trace, I trace → I { trace with nextRoot := trace.nextRoot + 1 }) (scope : Scope) :
    Keeps I E (eval payload value scope) := by
  induction value using induction_on_forms generalizing scope with
  | scalar => exact .pure _
  | array items ih =>
    rw [Logic.variablePaths_array] at hnote
    refine .bind (evalItems_keeps fun item hitem => ih item hitem (fun path hpath => hnote path
      (List.mem_flatMap_of_mem hitem hpath)) scope) fun values _ => ?_
    exact fun trace hI => ⟨hplace trace hI, fun error _ => hfails error⟩
  | connective c items ih =>
    rw [eval_connective]
    rw [Logic.variablePaths_object (by cases c <;> decide), Logic.variablePaths_array] at hnote
    exact .bind (evalFirst_keeps fun item hitem => ih item hitem (fun path hpath => hnote path
      (List.mem_flatMap_of_mem hitem hpath)) scope) fun _ _ => .pure _
  | single c operand hoperand ih =>
    rw [Logic.variablePaths_object (by cases c <;> decide)] at hnote
    rw [eval_single c hoperand]
    exact .bind (ih hnote scope) fun _ _ => .pure _
  | not operand ih =>
    rw [Logic.variablePaths_object (by decide)] at hnote
    exact .bind (ih hnote scope) fun _ _ => .pure _
  | var operand path hpath =>
    rw [eval_variable hpath]
    exact keeps_readVariable hfails (hnote path (Logic.mem_variablePaths hpath))
  | compare c left right hl hr =>
    rw [Logic.variablePaths_object (by cases c <;> decide), Logic.variablePaths_array] at hnote
    rw [eval_compare]
    refine .bind (hl (fun path hpath => hnote path (by simp [hpath])) scope) fun l _ => ?_
    refine .bind (hr (fun path hpath => hnote path (by simp [hpath])) scope) fun r _ => ?_
    exact .bind (.lift fun error _ => hfails error) fun _ _ => .pure _
  | quantify q source predicate more hmore hs hp =>
    rw [Logic.variablePaths_object (by cases q <;> decide), Logic.variablePaths_array] at hnote
    rw [eval_quantify _ _ _ hmore]
    refine .bind (hs (fun path hpath => hnote path (by simp [hpath])) scope) fun found _ => ?_
    refine .bind (.lift fun error _ => hfails error) fun items _ => ?_
    have hpredicate := hp fun path hpath => hnote path (by simp [hpath])
    exact .bind (.decideFirst fun item _ => .bind (hpredicate _) fun _ _ => .pure _)
      fun _ _ => .pure _
  | malformed value error h =>
    rw [h.eval_eq]
    exact fun trace hI => ⟨hI, fun other _ => hfails other⟩

end Evaluation

end Criteria
