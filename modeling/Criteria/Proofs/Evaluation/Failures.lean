import Criteria.Proofs.Evaluation.Checked
import Criteria.Proofs.Evaluation.Visits

/-!
# Why imported JSON-Logic fails

Whatever can be imported can be run: evaluating it fails only for what is found in the data, at an
expression that the evaluation comes to (`Evaluation.exists_blames`). `Evaluation.Blames` lists the
reasons: a collection that is no array, a number too large for an ordering, an index with too many
digits. The checks of the import and those of the evaluation differ operation by operation; the
induction is on the derivation of the import, which excludes the forms that the evaluation refuses.
-/

namespace Criteria

namespace Evaluation

open Logic

variable {payload : Value}

/-! ## Reasons -/

/-- What is to blame for a failure: something that is found in the data at an expression. -/
inductive Blames (payload : Value) : Visit → EvaluationError → Prop
  /-- The collection of a quantifier is neither an array nor null nor missing. -/
  | collection {q : Quantifier} {source predicate : Json} {more : List Json} {scope : Scope}
      {trace next : Trace} {value : Value}
      (hsource : (eval payload source scope).run trace = (.ok value, next))
      (h : value.isCollection = false) :
      Blames payload ⟨.object [(q.symbol, .array (source :: predicate :: more))], scope, trace⟩
        (.notAnArray q (referencePath? source) value.kind)
  /-- An operand of an ordering counts as a number beyond the doubles. -/
  | number {c : Comparison} {left right : Json} {scope : Scope} {trace mid next : Trace}
      {l r : Value} (hordering : c ≠ .eq ∧ c ≠ .ne)
      (hleft : (eval payload left scope).run trace = (.ok l, mid))
      (hright : (eval payload right scope).run mid = (.ok r, next))
      (h : l.TooLarge ∨ r.TooLarge) :
      Blames payload ⟨.object [(c.symbol, .array [left, right])], scope, trace⟩ .numberTooLarge
  /-- A segment of a path is an index with more digits than are read. -/
  | index {part : Json} {path segment : String} {scope : Scope} {trace : Trace}
      (hpath : referencePath? part = some path) (hsegment : segment ∈ Path.segments path)
      (h : Path.TooLong segment) :
      Blames payload ⟨part, scope, trace⟩ (.indexTooLong segment.length)

/-- There is nothing to blame the expression for. -/
theorem Blames.isOfData {visit : Visit} {error : EvaluationError} (h : Blames payload visit error) :
    error.IsOfData := by
  cases h <;> trivial

theorem isCollection_of_elements_error {q : Quantifier} {path : Option String} {value : Value}
    {error : EvaluationError} (h : elements q path value = .error error) :
    value.isCollection = false := by
  by_contra hcollection
  obtain ⟨items, hitems⟩ :=
    Value.elements_of_isCollection (eq_true_of_ne_false hcollection) q path
  rw [hitems] at h
  cases h

/-! ## Operations -/

/-- A failure of a computation can be blamed on one of the visits. -/
def BlamedOn {α : Type} (payload : Value) (x : Evaluation α) (trace : Trace)
    (visits : List Visit) : Prop :=
  ∀ error, (x.run trace).1 = .error error → ∃ visit ∈ visits, Blames payload visit error

namespace BlamedOn

variable {α β : Type} {x : Evaluation α} {f : α → Evaluation β} {trace : Trace}
  {vs ws : List Visit}

theorem pure (a : α) : BlamedOn payload (Pure.pure a : Evaluation α) trace vs :=
  fun _ h => nomatch h

theorem mono (h : BlamedOn payload x trace vs) (hsubset : vs ⊆ ws) :
    BlamedOn payload x trace ws := fun error herror => by
  obtain ⟨visit, hvisit, hblames⟩ := h error herror
  exact ⟨visit, hsubset hvisit, hblames⟩

/-- A failure of the second part is blamed on what is visited after the first. -/
theorem bind {after : α → Trace → List Visit} (hx : BlamedOn payload x trace vs)
    (hf : ∀ a next, x.run trace = (.ok a, next) → BlamedOn payload (f a) next (after a next)) :
    BlamedOn payload (x >>= f) trace (vs ++ visitsAfter x trace after) := fun error herror => by
  rcases run_bind_error herror with herror | ⟨a, next, hrun, herror⟩
  · obtain ⟨visit, hvisit, hblames⟩ := hx error herror
    exact ⟨visit, List.mem_append_left _ hvisit, hblames⟩
  · obtain ⟨visit, hvisit, hblames⟩ := hf a next hrun error herror
    refine ⟨visit, List.mem_append_right _ ?_, hblames⟩
    rwa [visitsAfter_of_run hrun]

/-- Nothing is left to fail after a computation whose value is only converted. -/
theorem map (h : BlamedOn payload x trace vs) (g : α → β) :
    BlamedOn payload (do return g (← x)) trace vs := fun error herror => by
  rcases run_bind_error herror with herror | ⟨a, next, -, herror⟩
  · exact h error herror
  · cases herror

theorem decideFirst {decider : Bool} {holds : Value → Evaluation Bool}
    {visits : Value → Trace → List Visit}
    (h : ∀ item trace, BlamedOn payload (holds item) trace (visits item trace))
    (items : List Value) (trace : Trace) :
    BlamedOn payload (Evaluation.decideFirst decider holds items) trace
      (visitsElements decider holds visits items trace) := by
  induction items generalizing trace with
  | nil => exact .pure _
  | cons item rest ih =>
    refine .bind (h item trace) fun b next _ => ?_
    split
    · exact .pure _
    · exact ih next

end BlamedOn

theorem blamedOn_variable {operand : Json} {path : String}
    (hpath : variablePath? operand = some path) (scope : Scope) (trace : Trace) :
    BlamedOn payload (eval payload (.object [("var", operand)]) scope) trace
      (visits payload (.object [("var", operand)]) scope trace) := fun error herror => by
  rw [eval_variable hpath] at herror
  obtain ⟨segment, hsegment, hlong, rfl⟩ : error.IsOfIndex (Path.segments path) := by
    rcases run_bind_error herror with herror | ⟨found, next, -, herror⟩
    · exact Scope.resolve_error herror
    cases found with
    | some value => cases herror
    | none =>
      rcases run_bind_error herror with herror | ⟨value, next, -, herror⟩
      · exact Value.read_error herror
      · cases herror
  rw [visits_variable]
  exact ⟨_, List.mem_singleton_self _, .index hpath hsegment hlong⟩

theorem blamedOn_compare (c : Comparison) {left right : Json} {scope : Scope} {trace : Trace}
    (hl : BlamedOn payload (eval payload left scope) trace (visits payload left scope trace))
    (hr : ∀ next, BlamedOn payload (eval payload right scope) next
      (visits payload right scope next)) :
    BlamedOn payload (eval payload (.object [(c.symbol, .array [left, right])]) scope) trace
      (visits payload (.object [(c.symbol, .array [left, right])]) scope trace) := by
  rw [eval_compare, visits_compare]
  intro error herror
  rcases run_bind_error herror with herror | ⟨l, mid, hleft, herror⟩
  · exact (hl.mono (List.subset_cons_of_subset _ (List.subset_append_left ..))) error herror
  rw [visitsAfter_of_run hleft]
  rcases run_bind_error herror with herror | ⟨r, next, hright, herror⟩
  · exact ((hr mid).mono (List.subset_cons_of_subset _ (List.subset_append_right ..))) error herror
  rcases run_bind_error herror with herror | ⟨b, _, -, herror⟩
  · obtain ⟨hordering, hlarge, rfl⟩ := compareValues_error herror
    exact ⟨_, List.mem_cons_self .., .number hordering hleft hright hlarge⟩
  · cases herror

theorem blamedOn_quantify (q : Quantifier) {source predicate : Json} (more : List Json)
    (hmore : more.length ≤ 1) {scope : Scope} {trace : Trace}
    (hs : BlamedOn payload (eval payload source scope) trace (visits payload source scope trace))
    (hp : ∀ frame next, BlamedOn payload (eval payload predicate (frame :: scope)) next
      (visits payload predicate (frame :: scope) next)) :
    BlamedOn payload
      (eval payload (.object [(q.symbol, .array (source :: predicate :: more))]) scope) trace
      (visits payload (.object [(q.symbol, .array (source :: predicate :: more))]) scope
        trace) := by
  rw [eval_quantify_elementsOf q source predicate hmore, visits_quantify]
  -- what lists the elements fails with the collection, or for it
  have helements : BlamedOn payload (elementsOf payload q source scope) trace
      (⟨.object [(q.symbol, .array (source :: predicate :: more))], scope, trace⟩ ::
        visits payload source scope trace) := fun error herror => by
    rcases run_bind_error herror with herror | ⟨value, next, hsource, herror⟩
    · exact (hs.mono (List.subset_cons_self ..)) error herror
    · have herror : elements q (referencePath? source) value = .error error := herror
      rw [elements_error herror]
      exact ⟨_, List.mem_cons_self .., .collection hsource (isCollection_of_elements_error herror)⟩
  rw [← List.cons_append]
  refine .bind helements fun items next _ => ?_
  exact (BlamedOn.decideFirst (fun item trace => (hp _ trace).map _) items next).map _

mutual

/-- **A failure of an importable expression can be blamed on the data** that the evaluation finds at
one of the expressions that it comes to. -/
theorem blamedOn_of_imports {catalog : Catalog} : ∀ {aliases : List String} {value : Json}
    {e : Expr}, Expr.Imports catalog aliases value e → ∀ scope trace,
      BlamedOn payload (eval payload value scope) trace (visits payload value scope trace)
  | _, _, _, .literal, _, _ => .pure _
  | _, _, _, .logical (c := c) hkey hfirst hrest, scope, trace => by
    obtain rfl := ofKey?_eq_some_iff.1 hkey
    rw [Operation.key, eval_connective, visits_connective]
    exact ((blamedOn_of_importsAll (.cons hfirst hrest) c.decider scope trace).map _).mono
      (List.subset_cons_self ..)
  | _, _, _, .not hkey h, scope, trace => by
    obtain rfl := ofKey?_eq_some_iff.1 hkey
    rw [Operation.key, visits_not]
    exact ((blamedOn_of_imports h scope trace).map _).mono (List.subset_cons_self ..)
  | _, _, _, .variable hkey hpath, scope, trace => by
    obtain rfl := ofKey?_eq_some_iff.1 hkey
    exact blamedOn_variable hpath scope trace
  | _, _, _, .compare hkey hl hr, scope, trace => by
    obtain rfl := ofKey?_eq_some_iff.1 hkey
    exact blamedOn_compare _ (blamedOn_of_imports hl scope trace) (blamedOn_of_imports hr scope)
  | _, _, _, .quantify hkey hc hp, scope, trace => by
    obtain rfl := ofKey?_eq_some_iff.1 hkey
    exact blamedOn_quantify _ [] (Nat.zero_le 1) (blamedOn_of_imports hc scope trace)
      fun frame => blamedOn_of_imports hp (frame :: scope)
  | _, _, _, .quantifyNamed hkey hc hp, scope, trace => by
    obtain rfl := ofKey?_eq_some_iff.1 hkey
    exact blamedOn_quantify _ [_] (Nat.le_refl 1) (blamedOn_of_imports hc scope trace)
      fun frame => blamedOn_of_imports hp (frame :: scope)

theorem blamedOn_of_importsAll {catalog : Catalog} : ∀ {aliases : List String} {items : List Json}
    {es : List Expr}, Expr.ImportsAll catalog aliases items es → ∀ decider scope trace,
      BlamedOn payload (evalFirst payload decider items scope) trace
        (visitsFirst payload decider items scope trace)
  | _, _, _, .nil, _, _, _ => .pure _
  | _, _, _, .cons hfirst hrest, decider, scope, trace => by
    rw [evalFirst_cons, visitsFirst]
    refine .bind ((blamedOn_of_imports hfirst scope trace).map _) fun b next _ => ?_
    split
    · exact .pure _
    · exact blamedOn_of_importsAll hrest decider scope next

end

/-- **Whatever can be imported can be run.** On every payload, inside every scope and after every
trace, an importable expression has a value, or fails for a collection that is no array, a number
too large for an ordering or an index with too many digits, which the evaluation finds at an
expression that it comes to; it is never refused as malformed. -/
theorem exists_blames {catalog : Catalog} {aliases : List String} {value : Json} {e : Expr}
    (h : Expr.ofLogic catalog aliases value = .ok e) (payload : Value) (scope : Scope)
    (trace : Trace) :
    (∃ v, ((eval payload value scope).run trace).1 = .ok v) ∨
      ∃ error, ((eval payload value scope).run trace).1 = .error error ∧ error.IsOfData ∧
        ∃ visit ∈ visits payload value scope trace, Blames payload visit error := by
  rcases hrun : ((eval payload value scope).run trace).1 with error | v
  · obtain ⟨visit, hvisit, hblames⟩ :=
      blamedOn_of_imports (Expr.imports_of_ofLogic value h) scope trace error hrun
    exact .inr ⟨error, rfl, hblames.isOfData, visit, hvisit, hblames⟩
  · exact .inl ⟨v, rfl⟩

/-- Quantifiers inside each other, the inner one over the tags of an element. -/
def tagged : Json :=
  .object [("all", .array [
    .object [("var", .string "items")],
    .object [("some", .array [
      .object [("var", .string "tags")],
      .object [("==", .array [
        .object [("var", .string "item")], .object [("var", .string "x.size")]])]])],
    .string "x"])]

/-- The tags of the second element are no array. -/
def taggedPayload : Value :=
  .ofJson ⟨0, []⟩ (.object [("items", .array [
    .object [("size", .int 2), ("tags", .array [.int 7, .int 2])],
    .object [("size", .int 2), ("tags", .int 5)]])])

theorem exists_blames_tags :
    ∃ e, Expr.ofLogic Catalog.empty [] tagged = .ok e ∧
      ∃ visit ∈ visits taggedPayload tagged [] Trace.start,
        Blames taggedPayload visit (.notAnArray .any (some "tags") "number") := by
  obtain ⟨e, he⟩ : ∃ e, Expr.ofLogic Catalog.empty [] tagged = .ok e := ⟨_, rfl⟩
  have hrun : ((eval taggedPayload tagged []).run Trace.start).1 =
      .error (.notAnArray .any (some "tags") "number") := rfl
  refine ⟨e, he, ?_⟩
  rcases exists_blames he taggedPayload [] Trace.start with ⟨v, hv⟩ | ⟨error, herror, -, hblamed⟩
  · exact absurd (hv.symm.trans hrun) nofun
  · obtain rfl := Except.error.inj (herror.symm.trans hrun)
    exact hblamed

end Evaluation

end Criteria
