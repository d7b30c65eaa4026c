import Criteria.Proofs.Evaluation.Import

/-!
# What an evaluation comes to

`Evaluation.visits` lists the expressions that an evaluation of importable JSON-Logic comes to, in
order, each with the elements around it and with the trace so far. Operands and elements that are
left out because another one decided, or failed, are not in it.
-/

namespace Criteria.Evaluation

open Logic

variable {payload : Value} {α β : Type}

/-- An expression that an evaluation comes to. -/
structure Visit where
  part : Json
  /-- The elements around it, innermost first. -/
  scope : Scope
  /-- What the evaluation left behind until then. -/
  trace : Trace

/-- What is visited after a computation, unless it fails. -/
def visitsAfter (x : Evaluation α) (trace : Trace) (visits : α → Trace → List Visit) :
    List Visit :=
  match x.run trace with
  | (.ok a, next) => visits a next
  | (.error _, _) => []

/-- What is visited while values are tried in order until one decides. -/
def visitsElements (decider : Bool) (holds : Value → Evaluation Bool)
    (visits : Value → Trace → List Visit) : List Value → Trace → List Visit
  | [], _ => []
  | value :: rest, trace =>
    visits value trace ++ visitsAfter (holds value) trace fun b next =>
      if b = decider then [] else visitsElements decider holds visits rest next

/-- The elements that a quantifier ranges over. -/
def elementsOf (payload : Value) (q : Quantifier) (source : Json) (scope : Scope) :
    Evaluation (List Value) := do
  lift (elements q (referencePath? source) (← eval payload source scope))

mutual

/-- The expressions that an evaluation inside the given elements, and after the given trace, comes
to. -/
def visits (payload : Value) : Json → Scope → Trace → List Visit
  | .scalar value, scope, trace => [⟨.scalar value, scope, trace⟩]
  | .array items, scope, trace => [⟨.array items, scope, trace⟩]
  | .object [(key, operand)], scope, trace =>
    ⟨.object [(key, operand)], scope, trace⟩ ::
      match Operation.ofKey? key with
      | some (.logical c) =>
        match operand with
        | .array items => visitsFirst payload c.decider items scope trace
        | _ => []
      | some .not => visits payload operand scope trace
      | some (.compare _) =>
        match operand with
        | .array [left, right] =>
          visits payload left scope trace ++
            visitsAfter (eval payload left scope) trace fun _ next =>
              visits payload right scope next
        | _ => []
      | some (.quantify q) =>
        match operand with
        | .array (source :: predicate :: more) =>
          visits payload source scope trace ++
            visitsAfter (elementsOf payload q source scope) trace fun items next =>
              visitsElements q.decider
                (fun item => truth payload predicate (⟨item, some (aliasName more)⟩ :: scope))
                (fun item trace =>
                  visits payload predicate (⟨item, some (aliasName more)⟩ :: scope) trace)
                items next
        | _ => []
      | _ => []
  | .object fields, scope, trace => [⟨.object fields, scope, trace⟩]

/-- The expressions that are come to among operands of a connective. -/
def visitsFirst (payload : Value) (decider : Bool) : List Json → Scope → Trace → List Visit
  | [], _, _ => []
  | item :: rest, scope, trace =>
    visits payload item scope trace ++
      visitsAfter (truth payload item scope) trace fun b next =>
        if b = decider then [] else visitsFirst payload decider rest scope next

end

/-! ## Equations -/

section

variable {scope : Scope} {trace next : Trace}

theorem visitsAfter_of_run {x : Evaluation α} {a : α} (h : x.run trace = (.ok a, next))
    (visits : α → Trace → List Visit) : visitsAfter x trace visits = visits a next := by
  rw [visitsAfter, h]

theorem visits_connective (c : Connective) (items : List Json) (scope : Scope) (trace : Trace) :
    visits payload (.object [(c.key, .array items)]) scope trace =
      ⟨.object [(c.key, .array items)], scope, trace⟩ ::
        visitsFirst payload c.decider items scope trace := by
  cases c <;> rfl

theorem visits_variable (operand : Json) (scope : Scope) (trace : Trace) :
    visits payload (.object [("var", operand)]) scope trace =
      [⟨.object [("var", operand)], scope, trace⟩] := by
  cases operand <;> rfl

theorem visits_not (operand : Json) (scope : Scope) (trace : Trace) :
    visits payload (.object [("!", operand)]) scope trace =
      ⟨.object [("!", operand)], scope, trace⟩ :: visits payload operand scope trace := by
  cases operand <;> rfl

theorem visits_compare (c : Comparison) (left right : Json) (scope : Scope) (trace : Trace) :
    visits payload (.object [(c.symbol, .array [left, right])]) scope trace =
      ⟨.object [(c.symbol, .array [left, right])], scope, trace⟩ ::
        (visits payload left scope trace ++
          visitsAfter (eval payload left scope) trace fun _ next =>
            visits payload right scope next) := by
  cases c <;> rfl

theorem visits_quantify (q : Quantifier) (source predicate : Json) (more : List Json)
    (scope : Scope) (trace : Trace) :
    visits payload (.object [(q.symbol, .array (source :: predicate :: more))]) scope trace =
      ⟨.object [(q.symbol, .array (source :: predicate :: more))], scope, trace⟩ ::
        (visits payload source scope trace ++
          visitsAfter (elementsOf payload q source scope) trace fun items next =>
            visitsElements q.decider
              (fun item => truth payload predicate (⟨item, some (aliasName more)⟩ :: scope))
              (fun item trace =>
                visits payload predicate (⟨item, some (aliasName more)⟩ :: scope) trace)
              items next) := by
  cases q <;> rfl

/-- A quantifier evaluates to what deciding by its elements does. -/
theorem eval_quantify_elementsOf (q : Quantifier) (source predicate : Json) {more : List Json}
    (h : more.length ≤ 1) (scope : Scope) :
    eval payload (.object [(q.symbol, .array (source :: predicate :: more))]) scope = (do
      let items ← elementsOf payload q source scope
      return .bool (← decideFirst q.decider
        (fun item => truth payload predicate (⟨item, some (aliasName more)⟩ :: scope)) items)) := by
  rw [eval_quantify q source predicate h]
  simp only [elementsOf, bind_assoc]
  rfl

end

end Criteria.Evaluation
