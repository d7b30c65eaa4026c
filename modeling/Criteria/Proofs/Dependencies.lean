import Criteria.Proofs.Expr.Spans
import Criteria.Proofs.Logic.Reimport
import Mathlib.Data.List.Nodup

/-!
# Conditions depend on their variables only

A catalog is asked about the variables of a condition and about nothing else: catalogs that answer
alike for these have the same findings (`Expr.checkUnder_congr`). The listed dependencies are the
catalog variables among them, each once, in the order of their first occurrences in the text; a
catalog of just the dependencies serves the condition as well as its own catalog
(`Condition.dependencies_suffice`).
-/

namespace Criteria

/-! ## The first item for every key -/

section Firsts

variable {α β : Type}

/-- Choosing by key among the items and keeping the first ones can be done in either order. -/
theorem firstsBy_filterMap {key : α → String} {key' : β → String} {f : String → Option β}
    (h : ∀ k b, f k = some b → key' b = k) (items : List α) :
    firstsBy key' (items.filterMap (f ∘ key)) = (firstsBy key items).filterMap (f ∘ key) := by
  induction items with
  | nil => rfl
  | cons item rest ih =>
    cases hitem : (f ∘ key) item with
    | none =>
      rw [List.filterMap_cons_none hitem, ih, firstsBy, List.filterMap_cons_none hitem,
        List.filterMap_filter]
      refine List.filterMap_congr fun other _ => ?_
      by_cases hkey : key other = key item
      · have hnone : f (key item) = none := hitem
        simp [hkey, hnone]
      · simp [hkey]
    | some b =>
      rw [List.filterMap_cons_some hitem, firstsBy, ih, firstsBy, List.filterMap_cons_some hitem,
        List.filterMap_filter, List.filter_filterMap]
      congr 1
      refine List.filterMap_congr fun other _ => ?_
      have hb : key' b = key item := h _ _ hitem
      cases hother : (f ∘ key) other with
      | none => simp
      | some b' =>
        have hb' : key' b' = key other := h _ _ hother
        by_cases hkey : key other = key item <;> simp [hb, hb', hkey, Option.filter]

end Firsts

/-! ## What is asked of a catalog -/

namespace Catalog

/-- The catalogs have the same definitions for the variables of an expression. -/
def AgreesOn (catalog' catalog : Catalog) (e : Expr) : Prop :=
  ∀ path, e.Mentions path → catalog'.lookup? path = catalog.lookup? path

variable {catalog catalog' : Catalog}

theorem AgreesOn.left {op : BinaryOp} {a b : Expr} {s t : Option Span}
    (h : catalog'.AgreesOn catalog (.binary op a b s t)) : catalog'.AgreesOn catalog a :=
  fun path hpath => h path (Expr.mentions_binary.2 (.inl hpath))

theorem AgreesOn.right {op : BinaryOp} {a b : Expr} {s t : Option Span}
    (h : catalog'.AgreesOn catalog (.binary op a b s t)) : catalog'.AgreesOn catalog b :=
  fun path hpath => h path (Expr.mentions_binary.2 (.inr hpath))

theorem AgreesOn.collection {q : Quantifier} {a b : Expr} {binder : Alias} {s : QuantifierSpans}
    (h : catalog'.AgreesOn catalog (.quantified q a b binder s)) : catalog'.AgreesOn catalog a :=
  fun path hpath => h path (Expr.mentions_quantified.2 (.inl hpath))

theorem AgreesOn.predicate {q : Quantifier} {a b : Expr} {binder : Alias} {s : QuantifierSpans}
    (h : catalog'.AgreesOn catalog (.quantified q a b binder s)) : catalog'.AgreesOn catalog b :=
  fun path hpath => h path (Expr.mentions_quantified.2 (.inr hpath))

theorem definitionsUnder_congr {e : Expr} (h : catalog'.AgreesOn catalog e) :
    catalog'.definitionsUnder e = catalog.definitionsUnder e := by
  unfold definitionsUnder
  congr 1
  exact List.filterMap_congr fun occurrence hmem => h occurrence.1 ⟨occurrence.2, hmem⟩

/-- A path is looked up under the definition with that path. -/
theorem lookup?_eq_some_iff {path : String} {d : Definition} :
    catalog.lookup? path = some d ↔ d ∈ catalog.definitions ∧ d.path = path := by
  refine ⟨lookup?_path, ?_⟩
  rintro ⟨hmem, rfl⟩
  obtain ⟨d', hfind⟩ : ∃ d', catalog.lookup? d.path = some d' :=
    Option.isSome_iff_exists.1 (List.find?_isSome.2 ⟨d, hmem, by simp⟩)
  obtain ⟨hmem', hpath⟩ := lookup?_path hfind
  rw [hfind, List.inj_on_of_nodup_map catalog.distinct hmem' hmem hpath]

/-- The catalog of just the definitions under an expression. -/
def restrictedTo (catalog : Catalog) (e : Expr) : Catalog :=
  ⟨catalog.definitionsUnder e, nodup_map_firstsBy _ _⟩

theorem restrictedTo_agreesOn (catalog : Catalog) (e : Expr) :
    (catalog.restrictedTo e).AgreesOn catalog e := by
  intro path hpath
  apply Option.ext
  intro d
  rw [lookup?_eq_some_iff]
  constructor
  · rintro ⟨hmem, rfl⟩
    obtain ⟨path, -, hlookup⟩ := mem_definitionsUnder.1 hmem
    rwa [(lookup?_path hlookup).2]
  · intro hlookup
    exact ⟨mem_definitionsUnder.2 ⟨path, hpath, hlookup⟩, (lookup?_path hlookup).2⟩

end Catalog

namespace Expr

variable {catalog catalog' : Catalog}

theorem operatorFindings_congr {e : Expr} (h : catalog'.AgreesOn catalog e) (aliases : List String)
    (c : Comparison) (span : Option Span) :
    operatorFindings catalog' aliases c e span = operatorFindings catalog aliases c e span := by
  unfold operatorFindings
  refine List.filterMap_congr fun occurrence hmem => ?_
  simp only [h occurrence.1 ⟨occurrence.2, hmem⟩]

theorem collectionFindings_congr {collection : Expr} (h : catalog'.AgreesOn catalog collection)
    (q : Quantifier) (e : Expr) :
    collectionFindings catalog' q collection e = collectionFindings catalog q collection e := by
  cases collection with
  | reference path span =>
    simp only [collectionFindings, h path ⟨span, List.mem_singleton_self _⟩]
  | _ => rfl

/-- **The check asks a catalog about the variables of a condition only.** -/
theorem checkUnder_congr {e : Expr} (h : catalog'.AgreesOn catalog e) (aliases : List String) :
    checkUnder catalog' aliases e = checkUnder catalog aliases e := by
  induction e generalizing aliases with
  | literal => rfl
  | reference path span =>
    have hpath := h path ⟨span, List.mem_singleton_self _⟩
    rw [checkUnder, checkUnder, Catalog.contains, Catalog.contains, hpath]
  | not argument _ _ ih => exact ih h aliases
  | binary op a b s t iha ihb =>
    cases op with
    | logical => simp only [checkUnder, iha h.left, ihb h.right]
    | compare c =>
      simp only [checkUnder, iha h.left, ihb h.right, Catalog.definitionsUnder_congr h.left,
        Catalog.definitionsUnder_congr h.right, operatorFindings_congr h]
  | quantified q a b binder s iha ihb =>
    simp only [checkUnder, iha h.collection, ihb h.predicate, collectionFindings_congr h.collection]

end Expr

namespace Condition

variable {text : String} {catalog catalog' : Catalog} {limit : Int} {c : Condition}

theorem ofExpr_congr {e : Expr} (h : catalog'.AgreesOn catalog e) :
    ofExpr catalog' e = ofExpr catalog e := by
  simp only [ofExpr, Catalog.definitionsUnder_congr h]

/-- **A catalog that knows the variables of a condition alike reads the same condition**, and writes
its JSON-Logic as the same text. -/
theorem parse_congr (hparse : parse text catalog limit = .ok c)
    (h : catalog'.AgreesOn catalog c.expr) :
    parse text catalog' limit = .ok c ∧
      ∀ room, write c.logic catalog' room = write c.logic catalog room := by
  have hparse' : parse text catalog' limit = .ok c := by
    obtain ⟨hblank, e, hread, hcheck, rfl⟩ := parse_eq_ok_iff.1 hparse
    have hcheck' : e.check catalog' = [] :=
      (congrArg Report.findings (Expr.checkUnder_congr h [])).trans hcheck
    exact parse_eq_ok_iff.2 ⟨hblank, e, hread, hcheck', (ofExpr_congr h).symm⟩
  refine ⟨hparse', fun room => ?_⟩
  rw [write, write, textOfLogic_parsed hparse', textOfLogic_parsed hparse]

/-- The catalog variables of a condition are listed in the order of their first occurrences. -/
theorem exists_firsts {e : Expr} {names : List Token} (h : Expr.Occurrences text e names)
    (catalog : Catalog) :
    ∃ firsts : List Token, firsts.Sublist names ∧
      firsts.map (·.lexeme.text) = (catalog.definitionsUnder e).map (·.path) ∧
        ∀ t ∈ firsts, ∀ u ∈ names, u.lexeme.text = t.lexeme.text → t = u ∨ t.stop ≤ u.start := by
  have hpaths : e.references.map Prod.fst = names.map (·.lexeme.text) := by
    have hlexemes := congrArg (List.map Lexeme.text) (Expr.lexemes_of_spelledBy h.references)
    rw [List.map_map, List.map_map] at hlexemes
    exact hlexemes.symm
  have hunder : catalog.definitionsUnder e =
      (firstsBy (·.lexeme.text) names).filterMap (catalog.lookup? ∘ (·.lexeme.text)) := by
    rw [← firstsBy_filterMap fun path d hd => (lookup?_path hd).2, Catalog.definitionsUnder,
      ← List.filterMap_map, ← hpaths, List.filterMap_map]
    rfl
  refine ⟨(firstsBy (·.lexeme.text) names).filter fun t => (catalog.lookup? t.lexeme.text).isSome,
    List.filter_sublist.trans (firstsBy_sublist _ _), ?_, ?_⟩
  · rw [hunder]
    generalize firstsBy (fun t : Token => t.lexeme.text) names = firsts
    induction firsts with
    | nil => rfl
    | cons t rest ih =>
      cases hlookup : catalog.lookup? t.lexeme.text with
      | none => simpa [hlookup] using ih
      | some d =>
        have hpath := (lookup?_path hlookup).2
        simpa [hlookup, hpath] using ih
  · intro t ht u hu hsame
    exact rel_of_mem_firstsBy h.ordered (List.mem_filter.1 ht).1 hu hsame

/-- **The dependencies of a condition are all it needs of a catalog.** Every catalog that defines
the variables of the condition alike, and among them the catalog of just its dependencies, reads the
same condition from the text and writes its JSON-Logic as the same text. The dependencies are the
catalog variables that occur in the condition, each once, in the order of their first occurrences in
the text. -/
theorem dependencies_suffice (h : parse text catalog limit = .ok c) :
    (∀ catalog' : Catalog,
        (∀ path, c.expr.Mentions path → catalog'.lookup? path = catalog.lookup? path) →
          parse text catalog' limit = .ok c ∧
            ∀ room, write c.logic catalog' room = write c.logic catalog room) ∧
      (∃ own, Catalog.ofDefinitions c.dependencies = (own, []) ∧
        parse text own limit = .ok c ∧
          ∀ room, write c.logic own room = write c.logic catalog room) ∧
      (∀ d, d ∈ c.dependencies ↔ catalog.Under c.expr d) ∧
      (c.dependencies.map (·.path)).Nodup ∧
      ∃ names firsts : List Token, Expr.Occurrences text c.expr names ∧ firsts.Sublist names ∧
        firsts.map (·.lexeme.text) = c.dependencies.map (·.path) ∧
          ∀ t ∈ firsts, ∀ u ∈ names, u.lexeme.text = t.lexeme.text →
            t = u ∨ t.stop ≤ u.start := by
  obtain ⟨-, e, hread, -, hc⟩ := parse_eq_ok_iff.1 h
  have hexpr : c.expr = e := congrArg Condition.expr hc
  have hdependencies : c.dependencies = catalog.definitionsUnder e :=
    congrArg Condition.dependencies hc
  refine ⟨fun catalog' hagrees => parse_congr h hagrees, ?_, ?_, ?_, ?_⟩
  · have hown : (catalog.restrictedTo e).definitions = c.dependencies := hdependencies.symm
    refine ⟨catalog.restrictedTo e, ?_, parse_congr h ?_⟩
    · rw [← hown, Catalog.ofDefinitions_definitions]
    · rw [hexpr]
      exact Catalog.restrictedTo_agreesOn catalog e
  · intro d
    rw [hdependencies, hexpr]
    exact mem_definitionsUnder
  · rw [hdependencies]
    exact nodup_map_firstsBy _ _
  · obtain ⟨names, hnames⟩ := Expr.exists_occurrences hread
    obtain ⟨firsts, hsub, hpaths, hfirst⟩ := exists_firsts hnames catalog
    rw [hexpr, hdependencies]
    exact ⟨names, firsts, hnames, hsub, hpaths, hfirst⟩

theorem dependencies_suffice_stock :
    ∃ c own, parse "status != null && some(items, item.level < threshold && status != null)"
        Expr.stockCatalog 2 = .ok c ∧
      c.dependencies.map (·.path) = ["status", "items", "threshold"] ∧
        Catalog.ofDefinitions c.dependencies = (own, []) ∧
          parse "status != null && some(items, item.level < threshold && status != null)" own 2 =
            .ok c := by
  obtain ⟨e, he⟩ : ∃ e, Expr.parse
      "status != null && some(items, item.level < threshold && status != null)" 2 = .ok e :=
    ⟨_, rfl⟩
  have hcheck : e.check Expr.stockCatalog = [] := by
    obtain rfl := Except.ok.inj he
    decide
  have hpaths : (Expr.stockCatalog.definitionsUnder e).map (·.path) =
      ["status", "items", "threshold"] := by
    obtain rfl := Except.ok.inj he
    decide
  have hparse := parse_eq_ok_iff.2 ⟨rfl, e, he, hcheck, rfl⟩
  obtain ⟨-, ⟨own, hown, hread, -⟩, -⟩ := dependencies_suffice hparse
  exact ⟨_, own, hparse, hpaths, hown, hread⟩

end Condition

end Criteria
