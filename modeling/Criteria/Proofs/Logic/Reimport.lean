import Criteria.Proofs.Condition
import Criteria.Proofs.Logic.Chains
import Criteria.Proofs.Logic.Everywhere

/-!
# Importing compiled conditions

The persisted form of a condition is imported again as the same condition, up to spans, association
and the alias `item`, which an import never writes out (`Expr.exists_ofLogic_toLogic`). Compiling
the import gives the persisted form once more, less the alias `item` (`Json.dropDefaultAlias`), and
writing it gives the text of the condition with that alias hidden (`Condition.import_parsed`).

What makes the import keep the paths is that the check knows them in the same places; that the
catalog still allows the import is because hiding an alias changes nothing that the check looks at
(`Expr.checkUnder_hideDefault`).
-/

namespace Criteria

/-! ## Hiding the default alias -/

/-- The alias as an import gives it: the default one is not written out. -/
def Alias.hideDefault (binder : Alias) : Alias :=
  ⟨binder.name, binder.written && binder.name != defaultAlias⟩

/-- Nothing is hidden of an alias other than the default one written out. -/
theorem Alias.hideDefault_eq {binder : Alias} (h : binder ≠ ⟨defaultAlias, true⟩) :
    binder.hideDefault = binder := by
  obtain ⟨name, _ | _⟩ := binder
  · rfl
  · have hname : name ≠ defaultAlias := by
      rintro rfl
      exact h rfl
    rw [hideDefault, bne_iff_ne.2 hname]
    rfl

/-- An alias that is written out or the default one is hidden when it is the default one. -/
theorem Alias.hideDefault_of_shown {binder : Alias}
    (h : binder.written = true ∨ binder.name = defaultAlias) :
    binder.hideDefault = ⟨binder.name, binder.name != defaultAlias⟩ := by
  rcases h with hwritten | hname
  · rw [hideDefault, hwritten, Bool.true_and]
  · rw [hideDefault, hname, bne_self_eq_false, Bool.and_false]

namespace Expr

/-- The condition with the default alias written out nowhere. -/
def hideDefault : Expr → Expr
  | .literal value span => .literal value span
  | .reference path span => .reference path span
  | .not argument span operatorSpan => .not argument.hideDefault span operatorSpan
  | .binary op left right span operatorSpan =>
    .binary op left.hideDefault right.hideDefault span operatorSpan
  | .quantified q collection predicate binder spans =>
    .quantified q collection.hideDefault predicate.hideDefault binder.hideDefault spans

/-- Nothing is hidden where the default alias is never written out. -/
theorem hideDefault_eq {e : Expr} (h : ∀ q collection predicate spans,
    Expr.quantified q collection predicate ⟨defaultAlias, true⟩ spans ∉ e.nodes) :
    e.hideDefault = e := by
  induction e with
  | literal => rfl
  | reference => rfl
  | not a _ _ ih =>
    rw [hideDefault, ih fun q a b s hmem => h q a b s (List.mem_cons_of_mem _ hmem)]
  | binary op a b _ _ iha ihb =>
    rw [hideDefault,
      iha fun q a b s hmem =>
        h q a b s (List.mem_cons_of_mem _ (List.mem_append_left _ hmem)),
      ihb fun q a b s hmem =>
        h q a b s (List.mem_cons_of_mem _ (List.mem_append_right _ hmem))]
  | quantified q collection predicate binder spans ihc ihp =>
    have hbinder : binder ≠ ⟨defaultAlias, true⟩ := by
      rintro rfl
      exact h q collection predicate spans (List.mem_cons_self ..)
    rw [hideDefault, Alias.hideDefault_eq hbinder,
      ihc fun q a b s hmem =>
        h q a b s (List.mem_cons_of_mem _ (List.mem_append_left _ hmem)),
      ihp fun q a b s hmem =>
        h q a b s (List.mem_cons_of_mem _ (List.mem_append_right _ hmem))]

theorem hideDefault_wellFormed {e : Expr} (h : e.WellFormed) : e.hideDefault.WellFormed := by
  induction e with
  | literal => exact h
  | reference => exact h
  | not _ _ _ ih => exact ih h
  | binary _ _ _ _ _ iha ihb => exact ⟨iha h.1, ihb h.2⟩
  | quantified _ _ _ binder _ ihc ihp =>
    refine ⟨ihc h.1, ihp h.2.1, h.2.2.1, h.2.2.2.1, ?_⟩
    rw [Alias.hideDefault_of_shown h.2.2.2.2]
    exact aliasShown binder.name

theorem references_hideDefault (e : Expr) : e.hideDefault.references = e.references := by
  induction e with
  | literal => rfl
  | reference => rfl
  | not _ _ _ ih => exact ih
  | binary _ _ _ _ _ iha ihb => rw [hideDefault, references, references, iha, ihb]
  | quantified _ _ _ _ _ ihc ihp => rw [hideDefault, references, references, ihc, ihp]

/-- **Hiding the default alias changes nothing that the check looks at.** -/
theorem checkUnder_hideDefault (catalog : Catalog) (aliases : List String) (e : Expr) :
    checkUnder catalog aliases e.hideDefault = checkUnder catalog aliases e := by
  have hdefinitions : ∀ a : Expr,
      catalog.definitionsUnder a.hideDefault = catalog.definitionsUnder a := fun a => by
    rw [Catalog.definitionsUnder, references_hideDefault, Catalog.definitionsUnder]
  induction e generalizing aliases with
  | literal => rfl
  | reference => rfl
  | not _ _ _ ih => exact ih aliases
  | binary op a b s t iha ihb =>
    cases op with
    | logical => rw [hideDefault, checkUnder, checkUnder, iha, ihb]
    | compare c =>
      have hliteral : ∀ (side e : Expr) (others : List Definition),
          literalFindings side.hideDefault others e.hideDefault =
            literalFindings side others e := fun side e others => by
        cases side <;> cases e <;> rfl
      have hreferences := references_hideDefault (.binary (.compare c) a b s t)
      have hright := hliteral b (.binary (.compare c) a b s t)
      have hleft := hliteral a (.binary (.compare c) a b s t)
      simp only [hideDefault] at hreferences hright hleft
      simp only [hideDefault, checkUnder, iha, ihb, hdefinitions, operatorFindings, hreferences,
        hright, hleft]
      rfl
  | quantified q collection predicate binder spans ihc ihp =>
    have hcollection : ∀ p p' : Expr, ∀ binder' : Alias,
        collectionFindings catalog q collection.hideDefault
            (.quantified q collection.hideDefault p binder' spans) =
          collectionFindings catalog q collection
            (.quantified q collection p' binder spans) := fun p p' binder' => by
      cases collection <;> rfl
    simp only [hideDefault, checkUnder, ihc, Alias.hideDefault, ihp]
    rw [hcollection predicate.hideDefault predicate]
    rfl

end Expr

/-! ## JSON-Logic without the default alias -/

namespace Json

/-- The operands of a quantifier without an alias that is the default one. -/
def withoutDefault : Json → Json
  | .array [collection, predicate, .string name] =>
    if name = defaultAlias then .array [collection, predicate]
    else .array [collection, predicate, .string name]
  | operands => operands

mutual

/-- JSON-Logic without the default alias as third operand of a quantifier. -/
def dropDefaultAlias : Json → Json
  | .scalar value => .scalar value
  | .array items => .array (dropItems items)
  | .object fields => .object (dropFields fields)

/-- The items without default aliases. -/
def dropItems : List Json → List Json
  | [] => []
  | item :: rest => dropDefaultAlias item :: dropItems rest

/-- The entries without default aliases. -/
def dropFields : List (String × Json) → List (String × Json)
  | [] => []
  | (key, operand) :: rest =>
    (key, if (Quantifier.ofSymbol? key).isSome then withoutDefault (dropDefaultAlias operand)
      else dropDefaultAlias operand) :: dropFields rest

end

theorem dropItems_append (xs ys : List Json) :
    dropItems (xs ++ ys) = dropItems xs ++ dropItems ys := by
  induction xs with
  | nil => rfl
  | cons x xs ih => rw [List.cons_append, dropItems, dropItems, ih, List.cons_append]

/-- An object that asks for no quantifier keeps its operands. -/
theorem dropDefaultAlias_of_key {key : String} {operand : Json}
    (hkey : Quantifier.ofSymbol? key = none) :
    dropDefaultAlias (.object [(key, operand)]) = .object [(key, operand.dropDefaultAlias)] := by
  rw [dropDefaultAlias, dropFields, dropFields, hkey]
  rfl

theorem ofSymbol?_connective (c : Connective) : Quantifier.ofSymbol? c.key = none := by
  cases c <;> rfl

theorem ofSymbol?_comparison (c : Comparison) : Quantifier.ofSymbol? c.symbol = none := by
  cases c <;> rfl

/-- Only an expression of a connective becomes one without default aliases. -/
theorem exists_of_dropDefaultAlias {c : Connective} {value : Json} {items : List Json}
    (h : value.dropDefaultAlias = .object [(c.key, .array items)]) :
    ∃ items', value = .object [(c.key, .array items')] := by
  match value with
  | .scalar _ => cases h
  | .array _ => cases h
  | .object [] => cases h
  | .object [(key, operand)] =>
    simp only [dropDefaultAlias, dropFields, Json.object.injEq, List.cons.injEq, Prod.mk.injEq,
      and_true] at h
    obtain ⟨rfl, h⟩ := h
    rw [ofSymbol?_connective] at h
    cases operand with
    | array items' => exact ⟨items', rfl⟩
    | _ => cases h
  | .object (_ :: _ :: _) =>
    simp [dropDefaultAlias, dropFields] at h

/-- The operands that an operand contributes, without default aliases. -/
theorem dropItems_operands (c : Connective) (value : Json) :
    dropItems (c.operands value) = c.operands value.dropDefaultAlias := by
  by_cases hchain : ∃ items, value = .object [(c.key, .array items)]
  · obtain ⟨items, rfl⟩ := hchain
    rw [Connective.operands_self, dropDefaultAlias_of_key (ofSymbol?_connective c),
      dropDefaultAlias, Connective.operands_self]
  · have hvalue : c.operands value = [value] :=
      (c.operands_cases value).resolve_right fun h => hchain ⟨_, h⟩
    have hdropped : c.operands value.dropDefaultAlias = [value.dropDefaultAlias] :=
      (c.operands_cases _).resolve_right fun h => hchain (exists_of_dropDefaultAlias h)
    rw [hvalue, hdropped]
    rfl

end Json

namespace Expr

open Json in
/-- **Compiling a condition with the default alias hidden** gives its JSON-Logic without that
alias. -/
theorem toLogic_hideDefault (e : Expr) : e.hideDefault.toLogic = e.toLogic.dropDefaultAlias := by
  induction e with
  | literal => rfl
  | reference => rfl
  | not a _ _ ih => rw [hideDefault, toLogic, toLogic, ih, dropDefaultAlias_of_key rfl]
  | binary op a b _ _ iha ihb =>
    cases op with
    | logical c =>
      rw [hideDefault, toLogic, toLogic, iha, ihb, dropDefaultAlias_of_key (ofSymbol?_connective c),
        dropDefaultAlias, dropItems_append, dropItems_operands, dropItems_operands]
    | compare c =>
      rw [hideDefault, toLogic, toLogic, iha, ihb, dropDefaultAlias_of_key (ofSymbol?_comparison c)]
      rfl
  | quantified q a b binder _ iha ihb =>
    have hquantifier : (Quantifier.ofSymbol? q.symbol).isSome = true := by cases q <;> rfl
    simp only [hideDefault, toLogic, iha, ihb, dropDefaultAlias, dropFields, hquantifier, if_true,
      dropItems]
    obtain ⟨name, written⟩ := binder
    by_cases hname : name = defaultAlias
    · subst hname
      cases written <;> rfl
    · cases written <;> simp [Alias.hideDefault, hname, withoutDefault, dropDefaultAlias, dropItems]

/-! ## Importing -/

variable {catalog : Catalog} {aliases : List String}

theorem ofLogic_compare (c : Comparison) (left right : Json) :
    ofLogic catalog aliases (.object [(c.symbol, .array [left, right])]) = (do
      return .binary (.compare c) (← ofLogic catalog aliases left)
        (← ofLogic catalog aliases right) none none) := by
  cases c <;> rfl

theorem ofLogic_quantify (q : Quantifier) (collection predicate : Json) {more : List Json}
    (h : more.length ≤ 1) :
    ofLogic catalog aliases (.object [(q.symbol, .array (collection :: predicate :: more))]) = (do
      return .quantified q (← ofLogic catalog aliases collection)
        (← ofLogic catalog (Logic.aliasName more :: aliases) predicate)
        ⟨Logic.aliasName more, Logic.aliasName more != defaultAlias⟩ {}) := by
  match more with
  | [] => cases q <;> rfl
  | [_] => cases q <;> rfl
  | _ :: _ :: _ => simp at h

/-- An import keeps a node: the path of a variable, and the alias of a quantifier, which is written
out or the default one. -/
def Kept (catalog : Catalog) (aliases : List String) : Expr → Prop
  | .reference path _ => Logic.resolvePath catalog aliases path = path
  | .quantified _ _ _ binder _ =>
    Logic.aliasName [.string binder.name] = binder.name ∧
      (binder.written = true ∨ binder.name = defaultAlias)
  | _ => True

/-- An import keeps a condition that can be written and whose variables all mean something. -/
theorem kept_of_wellFormed {e : Expr} (hwell : e.WellFormed)
    (h : e.Everywhere (Known catalog) aliases) : e.Everywhere (Kept catalog) aliases := by
  induction e generalizing aliases with
  | literal => trivial
  | reference => exact Logic.resolvePath_eq_self_iff.2 (.inr h)
  | not _ _ _ ih => exact ⟨trivial, ih hwell h.2⟩
  | binary _ _ _ _ _ iha ihb => exact ⟨trivial, iha hwell.1 h.2.1, ihb hwell.2 h.2.2⟩
  | quantified _ _ _ _ _ ihc ihp =>
    exact ⟨⟨Evaluation.aliasName_of_isName hwell.2.2.1, hwell.2.2.2.2⟩, ihc hwell.1 h.2.1,
      ihp hwell.2.1 h.2.2⟩

/-- **The JSON-Logic of a condition is imported as that condition**, with the default alias hidden,
when an import keeps its nodes. -/
theorem exists_ofLogic_toLogic {e : Expr} (h : e.Everywhere (Kept catalog) aliases) :
    ∃ a, ofLogic catalog aliases e.toLogic = .ok a ∧ a.Alike e.hideDefault ∧
      a.toLogic = e.hideDefault.toLogic := by
  induction e generalizing aliases with
  | literal value => exact ⟨_, rfl, .literal (.refl value), rfl⟩
  | reference path =>
    exact ⟨.reference path none, congrArg (fun path => Except.ok (reference path none)) h,
      .reference, rfl⟩
  | not a s t ih =>
    obtain ⟨a', ha, halike, hlogic⟩ := ih h.2
    refine ⟨.not a' none none, ?_, .not halike, ?_⟩
    · rw [toLogic, ofLogic, ha]
      rfl
    · rw [hideDefault, toLogic, toLogic, hlogic]
  | binary op a b s t iha ihb =>
    obtain ⟨a', ha, halike, hlogic⟩ := iha h.2.1
    obtain ⟨b', hb, halike', hlogic'⟩ := ihb h.2.2
    cases op with
    | logical c =>
      -- both operands are chains; the operands of the second go behind those of the first
      obtain ⟨f, fs, hfs, rfl⟩ := exists_ofLogicList_operands c ha
      obtain ⟨g, gs, hgs, rfl⟩ := exists_ofLogicList_operands c hb
      have hjoined := alike_joinAll c (joinAll c f fs) g gs
      refine ⟨joinAll c f (fs ++ g :: gs), ?_, ?_, ?_⟩
      · exact ofLogic_of_ofLogicList c (ofLogicList_append hfs hgs)
      · rw [joinAll_append]
        exact hjoined.trans (.binary halike halike')
      · rw [joinAll_append, toLogic_joinAll, List.flatMap_cons, ← operands_joinAll, hlogic, hlogic']
        rfl
    | compare c =>
      refine ⟨.binary (.compare c) a' b' none none, ?_, .binary halike halike', ?_⟩
      · rw [toLogic, ofLogic_compare, ha, hb]
        rfl
      · rw [hideDefault, toLogic, toLogic, hlogic, hlogic']
  | quantified q collection predicate binder spans ihc ihp =>
    obtain ⟨⟨hname, hshown⟩, hcollection, hpredicate⟩ := h
    obtain ⟨c', hc, halike, hlogic⟩ := ihc hcollection
    obtain ⟨p', hp, halike', hlogic'⟩ := ihp hpredicate
    refine ⟨.quantified q c' p' binder.hideDefault {}, ?_, .quantified halike halike', ?_⟩
    · rw [toLogic, ofLogic_quantify _ _ _ (by split <;> simp),
        Evaluation.aliasName_written hname, hc, hp, Alias.hideDefault_of_shown hshown]
      rfl
    · rw [hideDefault, toLogic, toLogic, hlogic, hlogic']

/-- A condition that can be written has no number that keeps it from being written. -/
theorem unwritable?_of_wellFormed {e : Expr} (h : e.WellFormed) : e.unwritable? = none := by
  induction e with
  | literal value =>
    cases value with
    | double d =>
      obtain ⟨units, hunits, -⟩ := h
      exact if_pos (Double.isFinite_of_units? hunits)
    | _ => rfl
  | reference => rfl
  | not _ _ _ ih => exact ih h
  | binary _ _ _ _ _ iha ihb => rw [unwritable?, iha h.1, ihb h.2, Option.none_or]
  | quantified _ _ _ _ _ ihc ihp => rw [unwritable?, ihc h.1, ihp h.2.1, Option.none_or]

end Expr

/-! ## Persisted conditions -/

namespace Condition

variable {text : String} {catalog : Catalog} {limit : Int} {c : Condition}

/-- The text that is written for an imported condition, when the catalog allows it. -/
theorem textOfLogic_eq {logic : Json} {a : Expr} (ha : Expr.ofLogic catalog [] logic = .ok a)
    (hcheck : a.check catalog = []) (hwell : a.WellFormed) :
    textOfLogic logic catalog = .ok a.text := by
  rw [textOfLogic, ha]
  simp only [hcheck, Expr.unwritable?_of_wellFormed hwell]

/-- What is known of the import of the JSON-Logic of a condition. -/
theorem exists_import (h : parse text catalog limit = .ok c) :
    ∃ a, Expr.ofLogic catalog [] c.logic = .ok a ∧ a.Alike c.expr.hideDefault ∧
      a.toLogic = c.logic.dropDefaultAlias ∧ a.check catalog = [] ∧ a.WellFormed := by
  obtain ⟨-, e, hparse, hcheck, rfl⟩ := parse_eq_ok_iff.1 h
  have hwell := Expr.wellFormed_of_parse hparse
  obtain ⟨a, ha, halike, hlogic⟩ :=
    Expr.exists_ofLogic_toLogic
      (Expr.kept_of_wellFormed hwell (Expr.known_of_findings_eq_nil hcheck))
  refine ⟨a, ha, halike, hlogic.trans (Expr.toLogic_hideDefault e), ?_, ?_⟩
  · refine (halike.check_eq_nil catalog).2 ?_
    exact (congrArg Report.findings (Expr.checkUnder_hideDefault catalog [] e)).trans hcheck
  · rw [Expr.wellFormed_iff_readable, hlogic]
    exact ⟨((Expr.wellFormed_iff_readable _).1 (Expr.hideDefault_wellFormed hwell)).1,
      (Expr.imports_of_ofLogic _ ha).aliasesShown⟩

/-- The JSON-Logic of a condition is written as the text of the condition with the default alias
hidden. -/
theorem textOfLogic_parsed (h : parse text catalog limit = .ok c) :
    textOfLogic c.logic catalog = .ok c.expr.hideDefault.text := by
  obtain ⟨a, ha, halike, -, hcheck, hwell⟩ := exists_import h
  rw [← halike.text_eq]
  exact textOfLogic_eq ha hcheck hwell

/-- The JSON-Logic of a condition is written where there is room for it. -/
theorem write_parsed (h : parse text catalog limit = .ok c) {room : Nat}
    (hheight : c.logic.height ≤ room) :
    write c.logic catalog room = .ok c.expr.hideDefault.text := by
  rw [write, if_neg (Nat.not_lt.2 hheight), textOfLogic_parsed h]

/-- **Persisted conditions are imported unchanged.** The JSON-Logic of a condition read from text is
imported as a condition again, path by path; compiling the import gives the same JSON-Logic, less
the alias `item` where it is the third operand of a quantifier, and writing it gives the text of the
condition with that alias hidden, which is the canonical text unless the alias was written out. -/
theorem import_parsed (h : parse text catalog limit = .ok c) :
    Logic.Everywhere (Logic.KeepsPath catalog) [] .truth c.logic ∧
      (∃ a, Expr.ofLogic catalog [] c.logic = .ok a ∧
        a.references.map Prod.fst = c.expr.references.map Prod.fst ∧
          a.toLogic = c.logic.dropDefaultAlias) ∧
        textOfLogic c.logic catalog = .ok c.expr.hideDefault.text ∧
          ((∀ q collection predicate spans, Expr.quantified q collection predicate
              ⟨defaultAlias, true⟩ spans ∉ c.expr.nodes) →
            textOfLogic c.logic catalog = .ok c.canonical) := by
  obtain ⟨a, ha, halike, hlogic, -⟩ := exists_import h
  have htext := textOfLogic_parsed h
  obtain ⟨-, e, hparse, hcheck, rfl⟩ := parse_eq_ok_iff.1 h
  refine ⟨?_, ⟨a, ha, ?_, hlogic⟩, htext, fun hunwritten => ?_⟩
  · rw [Logic.keepsPath_eq_anchored]
    exact Expr.anchored_toLogic (Expr.wellFormed_of_parse hparse)
      (Expr.known_of_findings_eq_nil hcheck) .truth
  · rw [halike.paths_eq, Expr.references_hideDefault]
  · rw [Expr.hideDefault_eq hunwritten] at htext
    exact htext

theorem import_parsed_stock :
    ∃ c a, parse "some(items as item, item.done && (status != null && item.level < threshold))"
        Expr.stockCatalog 3 = .ok c ∧
      Expr.ofLogic Expr.stockCatalog [] c.logic = .ok a ∧
        a.toLogic = c.logic.dropDefaultAlias ∧
          textOfLogic c.logic Expr.stockCatalog =
            .ok "some(items, item.done && status != null && item.level < threshold)" := by
  obtain ⟨e, he⟩ : ∃ e, Expr.parse
      "some(items as item, item.done && (status != null && item.level < threshold))" 3 = .ok e :=
    ⟨_, rfl⟩
  have hcheck : e.check Expr.stockCatalog = [] := by
    obtain rfl := Except.ok.inj he
    decide
  have hparse := parse_eq_ok_iff.2 ⟨rfl, e, he, hcheck, rfl⟩
  obtain ⟨-, ⟨a, ha, -, hlogic⟩, htext, -⟩ := import_parsed hparse
  refine ⟨_, a, hparse, ha, hlogic, htext.trans ?_⟩
  obtain rfl := Except.ok.inj he
  rfl

end Condition

end Criteria
