import Criteria.Proofs.Evaluation.Renaming
import Criteria.Proofs.Evaluation.Visits
import Criteria.Proofs.Logic.Normal

/-!
# Paths without their alias

Inside a predicate an import puts the innermost alias in front of a path that means nothing there,
as some producers leave it out. Evaluation has no such rule: it reads the path inside the elements
around, innermost first. Where the innermost element has the path, both come to the same
(`Scope.resolve_resolvePath`). So an imported condition is compiled to something with the same
outcome, as long as this is the case wherever an evaluation reads a rewritten path
(`Evaluation.judge_resolved`). Only the failure of a collection that is no array tells the path, and
may tell the rewritten one.
-/

namespace Criteria

open Evaluation Logic

/-! ## Rewritten paths -/

/-- The value has something at the path. -/
def Value.Has (value : Value) (path : String) : Prop :=
  ∃ found, value.read path = .ok (some found)

instance (value : Value) (path : String) : Decidable (value.Has path) :=
  match h : value.read path with
  | .ok (some found) => .isTrue ⟨found, h⟩
  | .ok none => .isFalse fun ⟨_, hfound⟩ => by rw [h] at hfound; cases hfound
  | .error _ => .isFalse fun ⟨_, hfound⟩ => by rw [h] at hfound; cases hfound

/-- A path that is rewritten is not relative to the innermost alias, which is put in front of it. -/
theorem Logic.resolvePath_of_ne {catalog : Catalog} {name path : String} {outer : List String}
    (h : resolvePath catalog (name :: outer) path ≠ path) :
    Path.isRelativeTo name path = false ∧ resolvePath catalog (name :: outer) path =
      if path = "" then name else name ++ "." ++ path := by
  unfold resolvePath at h ⊢
  split at h
  · exact absurd rfl h
  split at h
  · exact absurd rfl h
  rename_i hcatalog hrelative
  refine ⟨?_, by rw [if_neg hcatalog, if_neg hrelative]⟩
  rw [List.any_cons, Bool.or_eq_true, not_or] at hrelative
  exact eq_false_of_ne_true hrelative.1

/-- **An element that has a path serves it with its name in front, too.** -/
theorem Frame.resolve_resolvePath {catalog : Catalog} {value found : Value} {name path : String}
    {outer : List String} (hne : name ≠ "") (hread : value.read path = .ok (some found))
    (h : resolvePath catalog (name :: outer) path ≠ path) :
    (Frame.mk value (some name)).resolve path = .ok (some found) ∧
      (Frame.mk value (some name)).resolve (resolvePath catalog (name :: outer) path) =
        .ok (some found) := by
  obtain ⟨hrelative, hpath⟩ := resolvePath_of_ne h
  refine ⟨?_, ?_⟩
  · rw [resolve_eq_read, hread]
    rintro _ ⟨⟩
    exact hrelative
  · rw [hpath]
    split
    · rename_i hempty
      rw [hempty, Value.read, if_pos rfl] at hread
      rw [resolve_name hne]
      exact hread
    · rw [resolve_after hne (Path.append_ne_self name path) (Path.after?_append name path), hread]
      rfl

namespace Scope

/-- The elements stand under the given aliases, innermost first. -/
structure Under (scope : Scope) (aliases : List String) : Prop where
  names : scope.map Frame.name = aliases.map some
  ne_empty : ∀ name ∈ aliases, name ≠ ""

variable {scope : Scope} {aliases : List String}

theorem Under.cons (h : scope.Under aliases) (item : Value) (more : List Json) :
    Under (⟨item, some (aliasName more)⟩ :: scope) (aliasName more :: aliases) where
  names := by rw [List.map_cons, List.map_cons, h.names]
  ne_empty := List.forall_mem_cons.2
    ⟨ne_empty_of_aliasName (aliasName_aliasName more), h.ne_empty⟩

theorem Under.names_eq (h : scope.Under aliases) : scope.names = aliases := by
  have hnames := congrArg (List.filterMap id) h.names
  rwa [List.filterMap_map, List.filterMap_map, Function.id_comp, Function.id_comp,
    List.filterMap_some] at hnames

/-- A path that is rewritten means the same when the innermost element has it. -/
theorem resolve_resolvePath {catalog : Catalog} {path : String} (hunder : scope.Under aliases)
    (h : resolvePath catalog aliases path ≠ path)
    (hhas : ∀ frame ∈ scope.head?, frame.value.Has path) :
    ∃ found, scope.resolve path = .ok (some found) ∧
      scope.resolve (resolvePath catalog aliases path) = .ok (some found) := by
  obtain ⟨hnames, hne⟩ := hunder
  cases aliases with
  | nil => exact absurd (resolvePath_eq_self_iff.2 (.inl rfl)) h
  | cons name outer =>
    cases scope with
    | nil => cases hnames
    | cons frame rest =>
      obtain ⟨value, named⟩ := frame
      obtain rfl : named = some name := (List.cons.inj hnames).1
      obtain ⟨found, hread⟩ := hhas _ rfl
      obtain ⟨hpath, hrewritten⟩ :=
        Frame.resolve_resolvePath (hne name (List.mem_cons_self ..)) hread h
      refine ⟨found, ?_, ?_⟩
      · rw [resolve_cons, hpath]
        rfl
      · rw [resolve_cons, hrewritten]
        rfl

end Scope

namespace Evaluation

variable {catalog : Catalog} {payload : Value}

/-! ## Runs that do the same -/

/-- Two failures are the same, up to the path of a collection, which may be rewritten. -/
inductive SameFailure (catalog : Catalog) : EvaluationError → EvaluationError → Prop
  | refl (error : EvaluationError) : SameFailure catalog error error
  | collection (q : Quantifier) (path kind : String) (aliases : List String) :
      SameFailure catalog (.notAnArray q (some path) kind)
        (.notAnArray q (some (resolvePath catalog aliases path)) kind)

/-- Two computations do the same after a trace: they leave the same trace behind, and have the same
value or the same failure. -/
def SameRun {α : Type} (catalog : Catalog) (x y : Evaluation α) (trace : Trace) : Prop :=
  Paired (SameFailure catalog) Eq (x.run trace).1 (y.run trace).1 ∧
    (x.run trace).2 = (y.run trace).2

namespace SameRun

variable {α β : Type} {trace : Trace}

theorem refl (x : Evaluation α) (trace : Trace) : SameRun catalog x x trace := by
  refine ⟨?_, rfl⟩
  cases (x.run trace).1 with
  | error error => exact .error (.refl error)
  | ok a => exact .ok rfl

theorem of_run_eq {x y : Evaluation α} (h : x.run trace = y.run trace) :
    SameRun catalog x y trace := by
  rw [SameRun, ← h]
  exact refl x trace

theorem bind {x y : Evaluation α} {f g : α → Evaluation β} (hxy : SameRun catalog x y trace)
    (hfg : ∀ a next, x.run trace = (.ok a, next) → SameRun catalog (f a) (g a) next) :
    SameRun catalog (x >>= f) (y >>= g) trace := by
  obtain ⟨hpaired, hnext⟩ := hxy
  rw [SameRun, run_bind, run_bind]
  rcases hx : x.run trace with ⟨_ | a, s⟩ <;> rcases hy : y.run trace with ⟨_ | b, t⟩ <;>
    rw [hx, hy] at hpaired hnext
  · cases hpaired with | error he => exact ⟨.error he, hnext⟩
  · cases hpaired
  · cases hpaired
  · cases hpaired with | ok hab =>
    obtain rfl : s = t := hnext
    subst hab
    exact hfg a s hx

theorem map {x y : Evaluation α} (h : SameRun catalog x y trace) (f : α → β) :
    SameRun catalog (do return f (← x)) (do return f (← y)) trace :=
  h.bind fun _ _ _ => refl _ _

theorem decideFirst {decider : Bool} {holds holds' : Value → Evaluation Bool}
    {visits : Value → Trace → List Visit} {P : Visit → Prop} {items : List Value}
    (h : ∀ item trace, (∀ visit ∈ visits item trace, P visit) →
      SameRun catalog (holds item) (holds' item) trace)
    (hvisits : ∀ visit ∈ visitsElements decider holds visits items trace, P visit) :
    SameRun catalog (Evaluation.decideFirst decider holds items)
      (Evaluation.decideFirst decider holds' items) trace := by
  induction items generalizing trace with
  | nil => exact refl _ _
  | cons item rest ih =>
    obtain ⟨hitem, hrest⟩ := List.forall_mem_append.1 hvisits
    refine (h item trace hitem).bind fun b next hrun => ?_
    rw [visitsAfter_of_run hrun] at hrest
    split
    · exact refl _ _
    · rename_i hb
      rw [if_neg hb] at hrest
      exact ih hrest

end SameRun

/-! ## Expressions with rewritten paths -/

/-- Where a path is read that an import rewrites, the innermost element has it. -/
def Visit.Served (catalog : Catalog) (visit : Visit) : Prop :=
  ∀ path ∈ referencePath? visit.part,
    resolvePath catalog visit.scope.names path ≠ path →
      ∀ frame ∈ visit.scope.head?, frame.value.Has path

instance (catalog : Catalog) (visit : Visit) : Decidable (visit.Served catalog) :=
  inferInstanceAs (Decidable (∀ path ∈ referencePath? visit.part,
    resolvePath catalog visit.scope.names path ≠ path →
      ∀ frame ∈ visit.scope.head?, frame.value.Has path))

/-- A list of operands has more than one. -/
def Listed (_ : List String) (_ : Use) (value : Json) : Prop :=
  ∀ (c : Connective) (items : List Json), value = .object [(c.key, .array items)] → 2 ≤ items.length

section

variable {scope : Scope} {aliases : List String} {trace : Trace}

theorem sameRun_variable {operand : Json} {path : String}
    (hpath : variablePath? operand = some path) (hunder : scope.Under aliases)
    (hvisits : ∀ visit ∈ visits payload (.object [("var", operand)]) scope trace,
      visit.Served catalog) :
    SameRun catalog (eval payload (.object [("var", operand)]) scope)
      (eval payload (Expr.reference (resolvePath catalog aliases path) none).toLogic scope)
      trace := by
  rw [visits_variable] at hvisits
  have hserved := List.forall_mem_singleton.1 hvisits path hpath
  simp only [hunder.names_eq] at hserved
  rw [eval_variable hpath, Expr.toLogic, eval_variable rfl]
  by_cases hsame : resolvePath catalog aliases path = path
  · rw [hsame]
    exact .refl _ _
  · obtain ⟨found, hresolve, hresolve'⟩ := Scope.resolve_resolvePath hunder hsame (hserved hsame)
    refine .of_run_eq ?_
    rw [run_readVariable_served hresolve, run_readVariable_served hresolve']

theorem sameRun_compare (c : Comparison) {left right : Json} {l r : Expr}
    (hl : (∀ visit ∈ visits payload left scope trace, visit.Served catalog) →
      SameRun catalog (eval payload left scope) (eval payload l.toLogic scope) trace)
    (hr : ∀ next, (∀ visit ∈ visits payload right scope next, visit.Served catalog) →
      SameRun catalog (eval payload right scope) (eval payload r.toLogic scope) next)
    (hvisits : ∀ visit ∈ visits payload (.object [(c.symbol, .array [left, right])]) scope trace,
      visit.Served catalog) :
    SameRun catalog (eval payload (.object [(c.symbol, .array [left, right])]) scope)
      (eval payload (Expr.binary (.compare c) l r none none).toLogic scope) trace := by
  rw [visits_compare] at hvisits
  obtain ⟨-, hboth⟩ := List.forall_mem_cons.1 hvisits
  obtain ⟨hleft, hright⟩ := List.forall_mem_append.1 hboth
  rw [Expr.toLogic, eval_compare, eval_compare]
  refine (hl hleft).bind fun a next hrun => ?_
  rw [visitsAfter_of_run hrun] at hright
  exact (hr next hright).bind fun b _ _ => .refl _ _

/-- A collection is told by the path that the import gives it. -/
theorem referencePath?_of_imports : ∀ {aliases : List String} {value : Json} {e : Expr},
    Expr.Imports catalog aliases value e → Listed aliases .value value →
      referencePath? e.toLogic = (referencePath? value).map (resolvePath catalog aliases)
  | _, _, _, .literal, _ => rfl
  | _, _, _, .logical (c := c) hkey _ .nil, hlisted => by
    obtain rfl := ofKey?_eq_some_iff.1 hkey
    exact absurd (hlisted c _ rfl) (by simp)
  | _, _, _, .logical (c := c) hkey _ (.cons _ _), _ => by
    rw [referencePath?_of_key hkey nofun, Expr.toLogic_joinAll]
    exact referencePath?_of_key (ofKey?_key (.logical c)) nofun
  | _, _, _, .not hkey _, _ => by
    rw [referencePath?_of_key hkey nofun]
    rfl
  | _, _, _, .variable hkey hpath, _ => by
    obtain rfl := ofKey?_eq_some_iff.1 hkey
    exact (congrArg (Option.map _) hpath).symm
  | _, _, _, .compare hkey _ _, _ => by
    rw [referencePath?_of_key hkey nofun, referencePath?_toLogic]
    rfl
  | _, _, _, .quantify hkey _ _, _ => by
    rw [referencePath?_of_key hkey nofun, referencePath?_toLogic]
    rfl
  | _, _, _, .quantifyNamed hkey _ _, _ => by
    rw [referencePath?_of_key hkey nofun, referencePath?_toLogic]
    rfl

theorem sameRun_elementsOf (q : Quantifier) {source : Json} {c : Expr}
    (hs : SameRun catalog (eval payload source scope) (eval payload c.toLogic scope) trace)
    (hpath : referencePath? c.toLogic = (referencePath? source).map (resolvePath catalog aliases)) :
    SameRun catalog (elementsOf payload q source scope) (elementsOf payload q c.toLogic scope)
      trace := by
  refine hs.bind fun value next _ => ⟨?_, rfl⟩
  change Paired _ _ (elements q _ value) (elements q _ value)
  rw [hpath]
  unfold elements
  split
  · exact .ok rfl
  · exact .ok rfl
  · exact .ok rfl
  · refine .error ?_
    cases referencePath? source with
    | none => exact .refl _
    | some path => exact .collection q path value.kind aliases

theorem sameRun_quantify (q : Quantifier) {source predicate : Json} (more : List Json) {c p : Expr}
    {binder : Alias} (hmore : more.length ≤ 1) (hbinder : binder.name = aliasName more)
    (hpath : referencePath? c.toLogic = (referencePath? source).map (resolvePath catalog aliases))
    (hs : (∀ visit ∈ visits payload source scope trace, visit.Served catalog) →
      SameRun catalog (eval payload source scope) (eval payload c.toLogic scope) trace)
    (hp : ∀ item next,
      (∀ visit ∈ visits payload predicate (⟨item, some (aliasName more)⟩ :: scope) next,
        visit.Served catalog) →
      SameRun catalog (eval payload predicate (⟨item, some (aliasName more)⟩ :: scope))
        (eval payload p.toLogic (⟨item, some (aliasName more)⟩ :: scope)) next)
    (hvisits : ∀ visit ∈
      visits payload (.object [(q.symbol, .array (source :: predicate :: more))]) scope trace,
        visit.Served catalog) :
    SameRun catalog
      (eval payload (.object [(q.symbol, .array (source :: predicate :: more))]) scope)
      (eval payload (Expr.quantified q c p binder {}).toLogic scope) trace := by
  have hname : aliasName (if binder.written || binder.name != defaultAlias
      then [.string binder.name] else []) = aliasName more := by
    rw [aliasName_written (by rw [hbinder, aliasName_aliasName]), hbinder]
  rw [visits_quantify] at hvisits
  obtain ⟨-, hboth⟩ := List.forall_mem_cons.1 hvisits
  obtain ⟨hsource, hpredicate⟩ := List.forall_mem_append.1 hboth
  rw [eval_quantify_elementsOf q source predicate hmore, Expr.toLogic,
    eval_quantify_elementsOf q c.toLogic p.toLogic (by split <;> simp), hname]
  refine (sameRun_elementsOf q (hs hsource) hpath).bind fun items next hrun => ?_
  rw [visitsAfter_of_run hrun] at hpredicate
  exact (SameRun.decideFirst (fun item next h => (hp item next h).map _) hpredicate).map _

end

/-- A chain of several operands evaluates to what deciding by its operands does. -/
theorem eval_joinAll (c : Connective) (first second : Expr) (rest : List Expr) (scope : Scope) :
    eval payload (Expr.joinAll c first (second :: rest)).toLogic scope = (do
      return .bool (← evalFirst payload c.decider
        ((first :: second :: rest).map Expr.toLogic) scope)) := by
  rw [← truth_joinAll]
  conv_rhs => rw [Expr.toLogic_joinAll]
  rw [Expr.toLogic_joinAll]
  exact (givesTruth_connective c _).2 scope

mutual

/-- **An expression and its compiled import do the same** where rewritten paths are served by the
innermost element. -/
theorem sameRun_of_imports : ∀ {aliases : List String} {use : Use} {value : Json} {e : Expr},
    Expr.Imports catalog aliases value e → Everywhere Listed aliases use value →
      ∀ {scope : Scope}, scope.Under aliases → ∀ trace,
        (∀ visit ∈ visits payload value scope trace, visit.Served catalog) →
          SameRun catalog (eval payload value scope) (eval payload e.toLogic scope) trace
  | _, _, _, _, .literal, _, _, _, _, _ => .refl _ _
  | _, _, _, _, .logical (c := c) hkey hfirst hrest, hlisted, _, hunder, trace, hvisits => by
    obtain ⟨hlong, hitems⟩ := (everywhere_logical hkey).1 hlisted
    obtain rfl := ofKey?_eq_some_iff.1 hkey
    cases hrest with
    | nil => exact absurd (hlong c _ rfl) (by simp)
    | cons hsecond hrest =>
      rw [Operation.key, visits_connective] at hvisits
      rw [Operation.key, eval_connective, eval_joinAll]
      exact (sameRun_of_importsAll (.cons hfirst (.cons hsecond hrest)) hitems hunder c.decider
        trace (List.forall_mem_cons.1 hvisits).2).map _
  | _, _, _, _, .not hkey h, hlisted, _, hunder, trace, hvisits => by
    have hlisted := (everywhere_not hkey).1 hlisted
    obtain rfl := ofKey?_eq_some_iff.1 hkey
    rw [Operation.key, visits_not] at hvisits
    exact (sameRun_of_imports h hlisted.2 hunder trace (List.forall_mem_cons.1 hvisits).2).map _
  | _, _, _, _, .variable hkey hpath, _, _, hunder, _, hvisits => by
    obtain rfl := ofKey?_eq_some_iff.1 hkey
    exact sameRun_variable hpath hunder hvisits
  | _, _, _, _, .compare hkey hl hr, hlisted, _, hunder, trace, hvisits => by
    have hlisted := (everywhere_compare hkey).1 hlisted
    obtain rfl := ofKey?_eq_some_iff.1 hkey
    exact sameRun_compare _ (sameRun_of_imports hl hlisted.2.1 hunder trace)
      (sameRun_of_imports hr hlisted.2.2 hunder) hvisits
  | _, _, _, _, .quantify hkey hc hp, hlisted, _, hunder, trace, hvisits => by
    have hlisted := (everywhere_quantify hkey).1 hlisted
    obtain rfl := ofKey?_eq_some_iff.1 hkey
    exact sameRun_quantify _ [] (Nat.zero_le 1) rfl
      (referencePath?_of_imports hc hlisted.2.1.self)
      (sameRun_of_imports hc hlisted.2.1 hunder trace)
      (fun item => sameRun_of_imports hp hlisted.2.2 (hunder.cons item [])) hvisits
  | _, _, _, _, .quantifyNamed hkey hc hp, hlisted, _, hunder, trace, hvisits => by
    have hlisted := (everywhere_quantify hkey).1 hlisted
    obtain rfl := ofKey?_eq_some_iff.1 hkey
    exact sameRun_quantify _ [_] (Nat.le_refl 1) rfl
      (referencePath?_of_imports hc hlisted.2.1.self)
      (sameRun_of_imports hc hlisted.2.1 hunder trace)
      (fun item => sameRun_of_imports hp hlisted.2.2 (hunder.cons item [_])) hvisits

theorem sameRun_of_importsAll : ∀ {aliases : List String} {items : List Json} {es : List Expr},
    Expr.ImportsAll catalog aliases items es → EverywhereItems Listed aliases .truth items →
      ∀ {scope : Scope}, scope.Under aliases → ∀ decider trace,
        (∀ visit ∈ visitsFirst payload decider items scope trace, visit.Served catalog) →
          SameRun catalog (evalFirst payload decider items scope)
            (evalFirst payload decider (es.map Expr.toLogic) scope) trace
  | _, _, _, .nil, _, _, _, _, _, _ => .refl _ _
  | _, _, _, .cons hfirst hrest, hlisted, _, hunder, decider, trace, hvisits => by
    rw [visitsFirst] at hvisits
    obtain ⟨hitem, hitems⟩ := List.forall_mem_append.1 hvisits
    rw [List.map_cons, evalFirst_cons, evalFirst_cons]
    have htruth : SameRun catalog (truth payload _ _) (truth payload _ _) trace :=
      (sameRun_of_imports hfirst hlisted.1 hunder trace hitem).map _
    refine htruth.bind fun b next hrun => ?_
    rw [visitsAfter_of_run hrun] at hitems
    split
    · exact .refl _ _
    · rename_i hb
      rw [if_neg hb] at hitems
      exact sameRun_of_importsAll hrest hlisted.2 hunder decider next hitems

end

/-! ## Verdicts -/

/-- What does the same has the same verdict. -/
theorem judge_of_sameRun {a b : Json}
    (h : SameRun catalog (eval payload a []) (eval payload b []) Trace.start) :
    Paired (SameFailure catalog) Eq (judge a payload) (judge b payload) := by
  obtain ⟨hpaired, htrace⟩ := h
  rw [judge, judge]
  rcases ha : (eval payload a []).run Trace.start with ⟨_ | v, s⟩ <;>
    rcases hb : (eval payload b []).run Trace.start with ⟨_ | w, t⟩ <;>
    rw [ha, hb] at hpaired htrace
  · cases hpaired with | error he => exact .error he
  · cases hpaired
  · cases hpaired
  · cases hpaired with | ok hvw =>
    obtain rfl : s = t := htrace
    subst hvw
    exact .ok rfl

/-- An expression that there is room for is judged. -/
theorem evaluateOn_eq_judge {logic : Json} {room : Nat} (h : logic.height ≤ room)
    (payload : Value) : evaluateOn logic payload room = (judge logic payload).mapError .failed :=
  if_neg (Nat.not_lt.2 h)

/-- **Putting aliases in front of paths keeps the verdict where the elements have the paths.** Take
JSON-Logic whose lists of operands have more than one, and a payload on which the innermost element
has every rewritten path that the evaluation reads. Then importing and compiling keeps the truth,
the reads and the failure, which tells a rewritten path of a collection; and where there was room
for evaluating the one, there is room for the other. -/
theorem judge_resolved {logic : Json} {e : Expr} (h : Expr.ofLogic catalog [] logic = .ok e)
    (hlisted : Everywhere Listed [] .truth logic) (payload : Value)
    (hserved : ∀ visit ∈ visits payload logic [] Trace.start, visit.Served catalog) :
    Paired (SameFailure catalog) Eq (judge logic payload) (judge e.toLogic payload) ∧
      ∀ room, logic.height ≤ room →
        evaluateOn logic payload room = (judge logic payload).mapError .failed ∧
          evaluateOn e.toLogic payload room = (judge e.toLogic payload).mapError .failed := by
  have himports := Expr.imports_of_ofLogic logic h
  refine ⟨judge_of_sameRun (sameRun_of_imports himports hlisted ⟨rfl, nofun⟩ _ hserved), ?_⟩
  intro room hheight
  exact ⟨evaluateOn_eq_judge hheight payload,
    evaluateOn_eq_judge (himports.height_le.trans hheight) payload⟩

/-- A catalog of an array and a number. -/
def ordersCatalog : Catalog :=
  ⟨[⟨"orders", .array, [.eq, .ne], .null, .null, .null, .null, .null, .null⟩,
    ⟨"limit", .number, Comparison.all, .null, .null, .null, .null, .null, .null⟩], by decide⟩

/-- Paths without their alias, inside two quantifiers. -/
def unprefixed : Json :=
  .object [("all", .array [
    .object [("var", .string "orders")],
    .object [("some", .array [
      .object [("var", .string "lines")],
      .object [("and", .array [
        .object [("<", .array [
          .object [("var", .string "price")], .object [("var", .string "limit")]])],
        .object [("or", .array [
          .object [("var", .string "done")], .object [("var", .string "late")]])]])]])],
    .string "order"])]

/-- One order with two lines. Whether the first is done is not asked, nor whether the second is
late. -/
def orderPayload : Value :=
  .ofJson ⟨0, []⟩ (.object [("limit", .int 5), ("orders", .array [
    .object [("lines", .array [
      .object [("price", .int 7)],
      .object [("price", .int 3), ("done", .bool true)]])]])])

theorem unprefixed_listed : Everywhere Listed [] .truth unprefixed := by
  simp [unprefixed, Everywhere, EverywhereItems, Operation.ofKey?, Quantifier.ofSymbol?,
    Comparison.ofSymbol?, Comparison.all, Comparison.symbol, Listed]

theorem judge_resolved_orders :
    ∃ e, Expr.ofLogic ordersCatalog [] unprefixed = .ok e ∧
      e.references.map Prod.fst =
        ["orders", "order.lines", "item.price", "limit", "item.done", "item.late"] ∧
      Paired (SameFailure ordersCatalog) Eq (judge unprefixed orderPayload)
        (judge e.toLogic orderPayload) ∧
      (judge unprefixed orderPayload).map Verdict.holds = .ok true := by
  obtain ⟨e, he, hpaths⟩ : ∃ e, Expr.ofLogic ordersCatalog [] unprefixed = .ok e ∧
      e.references.map Prod.fst =
        ["orders", "order.lines", "item.price", "limit", "item.done", "item.late"] :=
    ⟨_, rfl, rfl⟩
  have hserved : ∀ visit ∈ visits orderPayload unprefixed [] Trace.start,
      visit.Served ordersCatalog := by
    decide +kernel
  have hholds : (judge unprefixed orderPayload).map Verdict.holds = .ok true := by decide +kernel
  exact ⟨e, he, hpaths, (judge_resolved he unprefixed_listed orderPayload hserved).1, hholds⟩

end Evaluation

end Criteria
