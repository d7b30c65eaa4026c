import Criteria.Proofs.Logic.Canonical

/-!
# The meaning of imported conditions

Importing JSON-Logic and compiling the condition again keeps the verdict on every payload, with its
error or its reads (`judge_import`). Two things can change it:

* An import rewrites a path that means nothing inside a predicate. `Logic.Anchored` excludes that.
* A list with one operand evaluates to the truth of the operand, and is imported as the operand
  itself. Where only its truth counts this is the same; `Logic.KeepsTruth` asks for an operand that
  is a truth value where the value counts, as operand of a comparison or as collection.

The induction is on the derivation of the import. What it shows of an expression depends on the use:
`Agree` is equality of truths, or of values.

A condition is compiled to lists with several operands, and its variables mean something, so its
persisted form meets both conditions (`Condition.judge_dropDefaultAlias`).
-/

namespace Criteria

namespace Logic

/-- The expression evaluates to a truth value on all data: it is a truth value or an operation other
than reading a variable. A list with one operand counts as the operand. -/
def IsTruth : Json → Prop
  | .bool _ => True
  | .object [(key, operand)] =>
    match Operation.ofKey? key with
    | some .variable => False
    | some (.logical _) =>
      match operand with
      | .array [item] => IsTruth item
      | _ => True
    | _ => True
  | _ => False

/-- Where its value counts, a list with one operand has one that is a truth value. -/
def KeepsTruth (_ : List String) (use : Use) (value : Json) : Prop :=
  use = .value → ∀ (c : Connective) (operand : Json),
    value = .object [(c.key, .array [operand])] → IsTruth operand

end Logic

namespace Evaluation

open Logic

variable {payload : Value}

/-! ## Truth -/

/-- The truth of an expression inside the given elements. -/
def truth (payload : Value) (value : Json) (scope : Scope) : Evaluation Bool := do
  return (← eval payload value scope).truthy

theorem evalFirst_cons (decider : Bool) (item : Json) (rest : List Json) (scope : Scope) :
    evalFirst payload decider (item :: rest) scope = (do
      if (← truth payload item scope) = decider then return decider
      else evalFirst payload decider rest scope) := by
  rw [evalFirst, truth, bind_assoc]
  simp only [pure_bind]

/-- The operands that some operands contribute decide as they do. -/
theorem evalFirst_flatMap_operands (c : Connective) (items : List Json) (scope : Scope) :
    evalFirst payload c.decider (items.flatMap c.operands) scope =
      evalFirst payload c.decider items scope := by
  induction items with
  | nil => rfl
  | cons item rest ih =>
    rw [List.flatMap_cons, evalFirst_append, evalFirst_operands, ih, evalFirst_cons]
    rfl

/-- **The truth of a chain is found operand by operand.** -/
theorem truth_joinAll (c : Connective) (first : Expr) (rest : List Expr) (scope : Scope) :
    truth payload (Expr.joinAll c first rest).toLogic scope =
      evalFirst payload c.decider ((first :: rest).map Expr.toLogic) scope := by
  rw [← evalFirst_flatMap_operands, List.flatMap_map, ← Expr.operands_joinAll, evalFirst_operands]
  rfl

/-- The expression is no variable, and its value is its truth. -/
def GivesTruth (payload : Value) (value : Json) : Prop :=
  referencePath? value = none ∧
    ∀ scope, eval payload value scope = (do return .bool (← truth payload value scope))

theorem givesTruth_of_eval {value : Json} (outcome : Scope → Evaluation Bool)
    (hpath : referencePath? value = none)
    (h : ∀ scope, eval payload value scope = (do return .bool (← outcome scope))) :
    GivesTruth payload value := by
  refine ⟨hpath, fun scope => ?_⟩
  rw [truth, h]
  simp only [bind_assoc, pure_bind, Value.truthy, bind_pure]

/-! ## Expressions that cannot be told apart -/

/-- Two expressions cannot be told apart in a use: they have the same truth, or the same value and
the same path. -/
def Agree (payload : Value) : Use → Json → Json → Prop
  | .truth, a, b => ∀ scope, truth payload a scope = truth payload b scope
  | .value, a, b =>
    referencePath? a = referencePath? b ∧ ∀ scope, eval payload a scope = eval payload b scope

namespace Agree

variable {a b : Json}

theorem of_value (h : Agree payload .value a b) (use : Use) : Agree payload use a b := by
  cases use with
  | truth =>
    intro scope
    rw [truth, truth, h.2]
  | value => exact h

theorem of_truth (ha : GivesTruth payload a) (hb : GivesTruth payload b)
    (h : Agree payload .truth a b) : Agree payload .value a b := by
  refine ⟨ha.1.trans hb.1.symm, fun scope => ?_⟩
  rw [ha.2, hb.2, h]

end Agree

/-! ## Operations -/

theorem givesTruth_scalar {value : Scalar} (h : IsTruth (.scalar value)) :
    GivesTruth payload (.scalar value) := by
  cases value with
  | bool b => exact givesTruth_of_eval (fun _ => return b) rfl fun _ => rfl
  | _ => exact h.elim

theorem givesTruth_connective (c : Connective) (items : List Json) :
    GivesTruth payload (.object [(c.key, .array items)]) :=
  givesTruth_of_eval (evalFirst payload c.decider items)
    (referencePath?_of_key (ofKey?_key (.logical c)) (by nofun)) (eval_connective c items)

theorem truth_connective (c : Connective) (items : List Json) (scope : Scope) :
    truth payload (.object [(c.key, .array items)]) scope =
      evalFirst payload c.decider items scope := by
  rw [truth, eval_connective, bind_assoc]
  simp only [pure_bind, Value.truthy, bind_pure]

theorem eval_not (value : Json) (scope : Scope) :
    eval payload (.object [("!", value)]) scope =
      (do return .bool !(← truth payload value scope)) := by
  rw [truth, bind_assoc]
  simp only [pure_bind]
  rfl

theorem givesTruth_not (value : Json) : GivesTruth payload (.object [("!", value)]) := by
  refine givesTruth_of_eval (fun scope => do return !(← truth payload value scope)) rfl
    fun scope => ?_
  rw [eval_not, bind_assoc]
  simp only [pure_bind]

theorem givesTruth_compare (c : Comparison) (left right : Json) :
    GivesTruth payload (.object [(c.symbol, .array [left, right])]) := by
  refine givesTruth_of_eval
    (fun scope => do
      let l ← eval payload left scope
      let r ← eval payload right scope
      lift (compareValues c l r))
    (referencePath?_of_key (ofKey?_key (.compare c)) (by nofun)) fun scope => ?_
  rw [eval_compare]
  simp only [bind_assoc]

theorem givesTruth_quantify (q : Quantifier) (source predicate : Json) {more : List Json}
    (h : more.length ≤ 1) :
    GivesTruth payload (.object [(q.symbol, .array (source :: predicate :: more))]) := by
  refine givesTruth_of_eval
    (fun scope => do
      let items ← lift (elements q (referencePath? source) (← eval payload source scope))
      decideFirst q.decider
        (fun item => truth payload predicate (⟨item, some (aliasName more)⟩ :: scope)) items)
    (referencePath?_of_key (ofKey?_key (.quantify q)) (by nofun)) fun scope => ?_
  rw [eval_quantify q source predicate h]
  simp only [bind_assoc]
  rfl

namespace Agree

theorem of_eval (op : Operation) {a b : Json} (hop : op ≠ .variable)
    (h : ∀ scope, eval payload (.object [(op.key, a)]) scope =
      eval payload (.object [(op.key, b)]) scope) :
    Agree payload .value (.object [(op.key, a)]) (.object [(op.key, b)]) := by
  have hkey := ofKey?_key op
  exact ⟨(referencePath?_of_key hkey hop).trans (referencePath?_of_key hkey hop).symm, h⟩

theorem not {a b : Json} (h : Agree payload .truth a b) :
    Agree payload .value (.object [("!", a)]) (.object [("!", b)]) :=
  of_eval .not (by nofun) fun scope => by
    rw [Operation.key, eval_not, eval_not, h]

theorem compare (c : Comparison) {l l' r r' : Json} (hl : Agree payload .value l l')
    (hr : Agree payload .value r r') :
    Agree payload .value (.object [(c.symbol, .array [l, r])])
      (.object [(c.symbol, .array [l', r'])]) :=
  of_eval (.compare c) (by nofun) fun scope => by
    rw [Operation.key, eval_compare, eval_compare, hl.2, hr.2]

theorem quantify (q : Quantifier) {source source' predicate predicate' : Json}
    {more more' : List Json} (hsource : Agree payload .value source source')
    (hpredicate : Agree payload .truth predicate predicate')
    (hmore : more.length ≤ 1) (hmore' : more'.length ≤ 1)
    (hname : aliasName more = aliasName more') :
    Agree payload .value (.object [(q.symbol, .array (source :: predicate :: more))])
      (.object [(q.symbol, .array (source' :: predicate' :: more'))]) :=
  of_eval (.quantify q) (by nofun) fun scope => by
    have htruths : (fun item => truth payload predicate (⟨item, some (aliasName more)⟩ :: scope)) =
        fun item => truth payload predicate' (⟨item, some (aliasName more')⟩ :: scope) := by
      funext item
      rw [hpredicate, hname]
    simp only [truth] at htruths
    rw [Operation.key, eval_quantify q source predicate hmore,
      eval_quantify q source' predicate' hmore', hsource.1, hsource.2, htruths]

end Agree

/-! ## Imports -/

variable {catalog : Catalog}

/-- A list is a truth value where its value counts and that is kept. -/
theorem isTruth_of_keepsTruth {c : Connective} {items : List Json} {aliases : List String}
    (h : KeepsTruth aliases .value (.object [(c.key, .array items)])) :
    IsTruth (.object [(c.key, .array items)]) := by
  have hkey := ofKey?_key (.logical c)
  rw [Operation.key] at hkey
  unfold IsTruth
  rw [hkey]
  cases items with
  | nil => trivial
  | cons item rest =>
    cases rest with
    | nil => exact h rfl c item rfl
    | cons => trivial

/-- What is imported from a truth value is compiled to one. -/
theorem givesTruth_of_imports : ∀ {value : Json} {aliases : List String} {e : Expr},
    Expr.Imports catalog aliases value e → IsTruth value → GivesTruth payload e.toLogic
  | _, _, _, .literal, h => givesTruth_scalar h
  | _, _, _, .logical hkey hfirst .nil, h => by
    unfold IsTruth at h
    rw [hkey] at h
    exact givesTruth_of_imports hfirst h
  | _, _, _, .logical _ _ (.cons _ _), _ => by
    rw [Expr.toLogic_joinAll]
    exact givesTruth_connective _ _
  | _, _, _, .not _ _, _ => givesTruth_not _
  | _, _, _, .variable hkey _, h => by
    unfold IsTruth at h
    rw [hkey] at h
    exact h.elim
  | _, _, _, .compare _ _ _, _ => givesTruth_compare _ _ _
  | _, _, _, .quantify _ _ _, _ => givesTruth_quantify _ _ _ (by split <;> simp)
  | _, _, _, .quantifyNamed _ _ _, _ => givesTruth_quantify _ _ _ (by split <;> simp)

/-- The compiled import of a variable whose path is kept reads what the variable reads. -/
theorem agree_variable {aliases : List String} {use use' : Use} {path : String} {operand : Json}
    (hpath : variablePath? operand = some path)
    (h : Anchored catalog aliases use (.object [("var", operand)])) :
    Agree payload use'
      (Expr.reference (resolvePath catalog aliases path) none).toLogic
      (.object [("var", operand)]) := by
  have hreference : referencePath? (.object [("var", operand)]) = some path := hpath
  rw [resolvePath_eq_self_iff.2 (h path hreference)]
  have hpaths : referencePath? (Expr.reference path none).toLogic = some path := rfl
  exact Agree.of_value ⟨hpaths.trans hreference.symm, fun scope => (eval_variable hpath scope).symm⟩
    use'

/-- The truth of a list of operands is that of the chain of imports that agree with them. -/
theorem agree_joinAll (c : Connective) {first : Json} {rest : List Json} {e : Expr}
    {es : List Expr} (hfirst : Agree payload .truth e.toLogic first)
    (hrest : ∀ decider scope, evalFirst payload decider (es.map Expr.toLogic) scope =
      evalFirst payload decider rest scope) :
    Agree payload .truth (Expr.joinAll c e es).toLogic
      (.object [(c.key, .array (first :: rest))]) := fun scope => by
  rw [truth_joinAll, truth_connective, List.map_cons, evalFirst_cons, evalFirst_cons, hfirst,
    hrest]

/-- A quantifier is that of imports that agree with its operands, when the alias is the same. -/
theorem agree_quantified (q : Quantifier) {source predicate : Json} {c p : Expr}
    (more : List Json) {binder : Alias} (hc : Agree payload .value c.toLogic source)
    (hp : Agree payload .truth p.toLogic predicate) (hmore : more.length ≤ 1)
    (hname : binder.name = aliasName more) :
    Agree payload .value (Expr.quantified q c p binder {}).toLogic
      (.object [(q.symbol, .array (source :: predicate :: more))]) := by
  have hagain : aliasName [.string binder.name] = binder.name := by
    rw [hname, aliasName_aliasName]
  exact .quantify q hc hp (by split <;> simp) hmore ((aliasName_written hagain).trans hname)

mutual

/-- **Compiling an import keeps the meaning of every expression**, as far as its use goes. -/
theorem agree_of_imports : ∀ {aliases : List String} {use : Use} {value : Json} {e : Expr},
    Expr.Imports catalog aliases value e → Everywhere (Anchored catalog) aliases use value →
      Everywhere KeepsTruth aliases use value → Agree payload use e.toLogic value
  | _, use, _, _, .literal, _, _ => .of_value ⟨rfl, fun _ => rfl⟩ use
  | _, use, _, _, .logical (c := c) hkey hfirst hrest, hpaths, htruths => by
    have hpaths := (everywhere_logical hkey).1 hpaths
    have htruths := (everywhere_logical hkey).1 htruths
    have hitem := agree_of_imports hfirst hpaths.2.1 htruths.2.1
    have hitems := evalFirst_of_importsAll hrest hpaths.2.2 htruths.2.2
    obtain rfl := ofKey?_eq_some_iff.1 hkey
    have htruth := agree_joinAll c hitem hitems
    cases use with
    | truth => exact htruth
    | value =>
      -- the value is a truth value on both sides
      have hgives : GivesTruth payload (Expr.joinAll c _ _).toLogic :=
        givesTruth_of_imports (.logical hkey hfirst hrest) (isTruth_of_keepsTruth htruths.1)
      exact .of_truth hgives (givesTruth_connective _ _) htruth
  | _, use, _, _, .not hkey h, hpaths, htruths => by
    have hpaths := (everywhere_not hkey).1 hpaths
    have htruths := (everywhere_not hkey).1 htruths
    obtain rfl := ofKey?_eq_some_iff.1 hkey
    exact .of_value (.not (agree_of_imports h hpaths.2 htruths.2)) use
  | _, use, _, _, .variable hkey hpath, hpaths, _ => by
    have hpaths := (everywhere_variable hkey).1 hpaths
    obtain rfl := ofKey?_eq_some_iff.1 hkey
    exact agree_variable hpath hpaths
  | _, use, _, _, .compare hkey hl hr, hpaths, htruths => by
    have hpaths := (everywhere_compare hkey).1 hpaths
    have htruths := (everywhere_compare hkey).1 htruths
    obtain rfl := ofKey?_eq_some_iff.1 hkey
    exact .of_value (.compare _ (agree_of_imports hl hpaths.2.1 htruths.2.1)
      (agree_of_imports hr hpaths.2.2 htruths.2.2)) use
  | _, use, _, _, .quantify hkey hc hp, hpaths, htruths => by
    have hpaths := (everywhere_quantify hkey).1 hpaths
    have htruths := (everywhere_quantify hkey).1 htruths
    obtain rfl := ofKey?_eq_some_iff.1 hkey
    exact .of_value (agree_quantified _ [] (agree_of_imports hc hpaths.2.1 htruths.2.1)
      (agree_of_imports hp hpaths.2.2 htruths.2.2) (Nat.zero_le 1) rfl) use
  | _, use, _, _, .quantifyNamed hkey hc hp, hpaths, htruths => by
    have hpaths := (everywhere_quantify hkey).1 hpaths
    have htruths := (everywhere_quantify hkey).1 htruths
    obtain rfl := ofKey?_eq_some_iff.1 hkey
    exact .of_value (agree_quantified _ [_] (agree_of_imports hc hpaths.2.1 htruths.2.1)
      (agree_of_imports hp hpaths.2.2 htruths.2.2) (Nat.le_refl 1) rfl) use

/-- Operands decide as their compiled imports do. -/
theorem evalFirst_of_importsAll : ∀ {aliases : List String} {items : List Json} {es : List Expr},
    Expr.ImportsAll catalog aliases items es →
      EverywhereItems (Anchored catalog) aliases .truth items →
      EverywhereItems KeepsTruth aliases .truth items → ∀ decider scope,
        evalFirst payload decider (es.map Expr.toLogic) scope = evalFirst payload decider items scope
  | _, _, _, .nil, _, _, _, _ => rfl
  | _, _, _, .cons hfirst hrest, hpaths, htruths, decider, scope => by
    have hitem := agree_of_imports hfirst hpaths.1 htruths.1
    have hitems := evalFirst_of_importsAll hrest hpaths.2 htruths.2 decider scope
    rw [List.map_cons, evalFirst_cons, evalFirst_cons, hitem, hitems]

end

/-! ## Verdicts -/

/-- Expressions of one truth have one verdict. -/
theorem judge_of_agree {a b : Json} (h : Agree payload .truth a b) :
    judge a payload = judge b payload := by
  have hjudge : ∀ logic : Json, judge logic payload =
      match (truth payload logic []).run Trace.start with
      | (.ok holds, trace) => .ok ⟨holds, trace.reads⟩
      | (.error error, _) => .error error := fun logic => by
    rw [judge, truth, run_bind]
    rcases (eval payload logic []).run Trace.start with ⟨_ | value, trace⟩ <;> rfl
  rw [hjudge, hjudge, h]

/-- **Importing JSON-Logic keeps its verdict on every payload**, be it a truth value with the
variables read or an error: whenever its paths mean something inside predicates and, where their
values count, lists with one operand have one that is a truth value. -/
theorem judge_import {logic : Json} {e : Expr} (h : Expr.ofLogic catalog [] logic = .ok e)
    (hpaths : Everywhere (Anchored catalog) [] .truth logic)
    (htruths : Everywhere KeepsTruth [] .truth logic) (payload : Value) :
    judge e.toLogic payload = judge logic payload :=
  judge_of_agree (agree_of_imports (Expr.imports_of_ofLogic logic h) hpaths htruths)

/-- A list with three operands, one of them a comparison with a list of one. -/
def threefold : Json :=
  .object [("and", .array [
    .object [("var", .string "a")],
    .object [("==", .array [
      .object [("or", .array [.object [("!", .object [("var", .string "b")])]])],
      .bool true])],
    .object [("some", .array [
      .object [("var", .string "items")], .object [("var", .string "x.ok")], .string "x"])]])]

/-- Data on which all three operands hold. -/
def threefoldPayload : Value :=
  .object ⟨0, []⟩ [("a", .scalar (.int 5)), ("b", .bool false),
    ("items", .array ⟨0, []⟩ [.object ⟨0, []⟩ [("ok", .bool true)]])]

theorem threefold_anchored : Everywhere (Anchored Catalog.empty) [] .truth threefold := by
  have hname : aliasName [.string "x"] = "x" := rfl
  have hknows : Catalog.empty.Knows ["x"] "x.ok" :=
    .inl ⟨"x", List.mem_singleton_self "x", by decide⟩
  simp [threefold, Everywhere, EverywhereItems, Operation.ofKey?, Quantifier.ofSymbol?,
    Comparison.ofSymbol?, Comparison.all, Comparison.symbol, Anchored, referencePath?,
    variablePath?, hname, hknows]

theorem threefold_keepsTruth : Everywhere KeepsTruth [] .truth threefold := by
  simp [threefold, Everywhere, EverywhereItems, Operation.ofKey?, Quantifier.ofSymbol?,
    Comparison.ofSymbol?, Comparison.all, Comparison.symbol, KeepsTruth, IsTruth]

theorem judge_import_threefold :
    ∃ e verdict, Expr.ofLogic Catalog.empty [] threefold = .ok e ∧
      judge e.toLogic threefoldPayload = .ok verdict ∧ verdict.holds = true ∧
        verdict.reads.map Prod.fst = ["a", "b", "items"] := by
  obtain ⟨e, he⟩ : ∃ e, Expr.ofLogic Catalog.empty [] threefold = .ok e := ⟨_, rfl⟩
  exact ⟨e, _, he, judge_import he threefold_anchored threefold_keepsTruth threefoldPayload, rfl,
    rfl⟩

/-- A list with one operand, where its value counts. -/
def single : Json :=
  .object [("==", .array [.object [("and", .array [.int 5])], .bool true])]

/-- A list with one operand is a truth value, and its import is the operand: compared, they
differ. -/
theorem judge_import_single :
    ∃ e, Expr.ofLogic Catalog.empty [] single = .ok e ∧
      Everywhere (Anchored Catalog.empty) [] .truth single ∧
        judge single (.ofJson ⟨0, []⟩ (.object [])) = .ok ⟨true, []⟩ ∧
          judge e.toLogic (.ofJson ⟨0, []⟩ (.object [])) = .ok ⟨false, []⟩ := by
  refine ⟨_, rfl, ?_, rfl, rfl⟩
  simp [single, Everywhere, EverywhereItems, Operation.ofKey?, Quantifier.ofSymbol?,
    Comparison.ofSymbol?, Comparison.all, Comparison.symbol, Anchored]

end Evaluation

/-! ## Persisted conditions -/

namespace Expr

open Logic

/-- Only a connective is compiled to a list of operands. -/
theorem exists_binary_of_toLogic {c : Connective} {items : List Json} {e : Expr}
    (h : e.toLogic = .object [(c.key, .array items)]) :
    ∃ left right s t, e = .binary (.logical c) left right s t := by
  refine exists_of_operation?_logical (@operation?_of_toLogic e _ (Json.array items).exact ?_)
  rw [h]
  rfl

/-- A compiled operand contributes something to a connective. -/
theorem operands_ne_nil (c : Connective) (e : Expr) : c.operands e.toLogic ≠ [] := by
  obtain ⟨first, rest, hfactors, -⟩ := exists_factors c e
  rw [operands_toLogic, hfactors]
  exact List.cons_ne_nil _ _

/-- A compiled list has more than one operand. -/
theorem keepsTruth_toLogic (aliases : List String) (use : Use) (e : Expr) :
    KeepsTruth aliases use e.toLogic := by
  intro _ c operand hsingle
  obtain ⟨left, right, s, t, rfl⟩ := exists_binary_of_toLogic hsingle
  have hitems := congrArg c.operands hsingle
  rw [toLogic, Connective.operands_self, Connective.operands_self] at hitems
  have hlength := congrArg List.length hitems
  have hleft := List.length_pos_iff.2 (operands_ne_nil c left)
  have hright := List.length_pos_iff.2 (operands_ne_nil c right)
  rw [List.length_append, List.length_singleton] at hlength
  omega

/-- What always holds, holds everywhere. -/
theorem everywhere_true (e : Expr) (aliases : List String) :
    e.Everywhere (fun _ _ => True) aliases := by
  induction e generalizing aliases with
  | literal => trivial
  | reference => trivial
  | not _ _ _ ih => exact ⟨trivial, ih aliases⟩
  | binary _ _ _ _ _ iha ihb => exact ⟨trivial, iha aliases, ihb aliases⟩
  | quantified _ _ _ _ _ ihc ihp => exact ⟨trivial, ihc aliases, ihp _⟩

end Expr

namespace Condition

/-- **Importing a persisted condition keeps its verdict on every payload**: dropping the default
alias from it changes nothing. -/
theorem judge_dropDefaultAlias {text : String} {catalog : Catalog} {limit : Int} {c : Condition}
    (h : parse text catalog limit = .ok c) (payload : Value) :
    judge c.logic.dropDefaultAlias payload = judge c.logic payload := by
  obtain ⟨a, ha, -, hlogic, -⟩ := exists_import h
  obtain ⟨-, e, hparse, hcheck, rfl⟩ := parse_eq_ok_iff.1 h
  have hwell := Expr.wellFormed_of_parse hparse
  rw [← hlogic]
  refine Evaluation.judge_of_agree (Evaluation.agree_of_imports (Expr.imports_of_ofLogic _ ha) ?_ ?_)
  · exact Expr.anchored_toLogic hwell (Expr.known_of_findings_eq_nil hcheck) .truth
  · exact Expr.everywhere_toLogic (fun aliases use e _ => Expr.keepsTruth_toLogic aliases use e)
      hwell (Expr.everywhere_true e []) .truth

end Condition

end Criteria
