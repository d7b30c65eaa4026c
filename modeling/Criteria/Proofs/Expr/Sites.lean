import Criteria.Proofs.Expr.Typing

/-!
# Where variables stand

`Expr.sites` lists the variable occurrences of a condition from left to right, each with the aliases
of the quantifiers in whose predicates it stands. Those that mean nothing there are what the check
reports as unknown variables, each once and in this order (`Expr.unknown_check`).
-/

namespace Criteria

/-- A variable occurrence, and the aliases around it, innermost first. -/
structure Site where
  path : String
  span : Option Span
  aliases : List String
  deriving DecidableEq

/-- What the check reports of a variable that means nothing. -/
def Site.unknown (site : Site) : Located := ⟨.unknownVariable site.path, site.span, "variable"⟩

instance (catalog : Catalog) (aliases : List String) (path : String) :
    Decidable (catalog.Knows aliases path) :=
  inferInstanceAs (Decidable ((∃ name ∈ aliases, Path.isRelativeTo name path = true) ∨
    catalog.contains path = true))

namespace Expr

/-- The variable occurrences of a condition inside quantifiers with the given aliases. -/
def sites (aliases : List String) : Expr → List Site
  | .literal .. => []
  | .reference path span => [⟨path, span, aliases⟩]
  | .not argument _ _ => argument.sites aliases
  | .binary _ left right _ _ => left.sites aliases ++ right.sites aliases
  | .quantified _ collection predicate binder _ =>
    collection.sites aliases ++ predicate.sites (binder.name :: aliases)

/-- More aliases around a condition are around all its variables. -/
theorem sites_append (e : Expr) (inner outer : List String) :
    e.sites (inner ++ outer) =
      (e.sites inner).map fun site => { site with aliases := site.aliases ++ outer } := by
  induction e generalizing inner with
  | literal => rfl
  | reference => rfl
  | not _ _ _ ih => exact ih inner
  | binary _ _ _ _ _ iha ihb => rw [sites, sites, List.map_append, iha, ihb]
  | quantified _ _ _ binder _ ihc ihp =>
    rw [sites, sites, List.map_append, ihc, ← List.cons_append, ihp]

/-- What holds everywhere holds of the variables, with the aliases around them. -/
theorem Everywhere.of_mem_sites {P : List String → Expr → Prop} {aliases : List String} {e : Expr}
    (h : e.Everywhere P aliases) {site : Site} (hsite : site ∈ e.sites aliases) :
    P site.aliases (.reference site.path site.span) := by
  induction e generalizing aliases with
  | literal => cases hsite
  | reference =>
    obtain rfl := List.mem_singleton.1 hsite
    exact h
  | not _ _ _ ih => exact ih h.2 hsite
  | binary _ _ _ _ _ iha ihb =>
    rcases List.mem_append.1 hsite with hsite | hsite
    · exact iha h.2.1 hsite
    · exact ihb h.2.2 hsite
  | quantified _ _ _ _ _ ihc ihp =>
    rcases List.mem_append.1 hsite with hsite | hsite
    · exact ihc h.2.1 hsite
    · exact ihp h.2.2 hsite

/-- The sites are the occurrences, from left to right. -/
theorem map_sites (e : Expr) (aliases : List String) :
    (e.sites aliases).map (fun site => (site.path, site.span)) = e.references := by
  induction e generalizing aliases with
  | literal => rfl
  | reference => rfl
  | not _ _ _ ih => exact ih aliases
  | binary _ _ _ _ _ iha ihb => rw [sites, List.map_append, iha, ihb, references]
  | quantified _ _ _ _ _ ihc ihp => rw [sites, List.map_append, ihc, ihp, references]

/-! ## Findings about names -/

variable {catalog : Catalog} {aliases : List String}

/-- Of all findings, only such about names are meant: unknown variables and unused aliases. -/
structure Names (p : Finding → Bool) : Prop where
  operator : ∀ c path, p (.operatorNotAllowed c path) = false
  literal : ∀ path type kind, p (.literalMismatch path type kind) = false
  types : ∀ left type right type' c, p (.variableMismatch left type right type' c) = false
  collection : p .collectionNotVariable = false
  array : ∀ q path, p (.collectionNotArray q path) = false

/-- The findings that are meant. -/
def meant (p : Finding → Bool) (findings : List Located) : List Located :=
  findings.filter fun located => p located.finding

theorem meant_append (p : Finding → Bool) (a b : List Located) :
    meant p (a ++ b) = meant p a ++ meant p b :=
  List.filter_append ..

theorem meant_eq_nil {p : Finding → Bool} {findings : List Located}
    (h : ∀ located ∈ findings, p located.finding = false) : meant p findings = [] :=
  List.filter_eq_nil_iff.2 fun located hmem => by simp [h located hmem]

namespace Names

variable {p : Finding → Bool} (h : Names p)

include h

theorem meant_operatorFindings (c : Comparison) (e : Expr) (span : Option Span) :
    meant p (operatorFindings catalog aliases c e span) = [] := by
  refine meant_eq_nil fun located hmem => ?_
  obtain ⟨⟨path, s⟩, -, hsome⟩ := List.mem_filterMap.1 hmem
  simp only at hsome
  split at hsome
  · split at hsome
    · cases hsome
    · cases hsome
      exact h.operator _ _
  · cases hsome

theorem meant_literalFindings (side : Expr) (others : List Definition) (e : Expr) :
    meant p (literalFindings side others e) = [] := by
  refine meant_eq_nil fun located hmem => ?_
  cases side with
  | literal value span =>
    obtain ⟨d, -, hsome⟩ := List.mem_filterMap.1 hmem
    split at hsome
    · cases hsome
    · cases hsome
      exact h.literal _ _ _
  | _ => cases hmem

theorem meant_variableFindings (c : Comparison) (lefts rights : List Definition) (e : Expr)
    (span : Option Span) : meant p (variableFindings c lefts rights e span) = [] := by
  refine meant_eq_nil fun located hmem => ?_
  obtain ⟨pair, -, rfl⟩ := List.mem_map.1 hmem
  exact h.types _ _ _ _ _

theorem meant_collectionFindings (q : Quantifier) (collection e : Expr) :
    meant p (collectionFindings catalog q collection e) = [] := by
  refine meant_eq_nil fun located hmem => ?_
  unfold collectionFindings at hmem
  split at hmem
  · split at hmem
    · split at hmem
      · cases hmem
      · obtain rfl := List.mem_singleton.1 hmem
        exact h.array _ _
    · cases hmem
  · obtain rfl := List.mem_singleton.1 hmem
    exact h.collection

/-- What is found about names at an operator is what is found in its operands. -/
theorem meant_binary (op : BinaryOp) (a b : Expr) (s t : Option Span) :
    meant p (checkUnder catalog aliases (.binary op a b s t)).findings =
      meant p (checkUnder catalog aliases a).findings ++
        meant p (checkUnder catalog aliases b).findings := by
  cases op with
  | logical => rw [checkUnder, findings_append, meant_append]
  | compare =>
    simp only [checkUnder, findings_append, meant_append, h.meant_operatorFindings,
      h.meant_literalFindings, h.meant_variableFindings, List.append_nil]

/-- What is found about names at a quantifier is what is found in its collection, in its predicate,
and about its own alias. -/
theorem meant_quantified (q : Quantifier) (a b : Expr) (binder : Alias) (spans : QuantifierSpans) :
    meant p (checkUnder catalog aliases (.quantified q a b binder spans)).findings =
      meant p (checkUnder catalog aliases a).findings ++
        (meant p (checkUnder catalog (binder.name :: aliases) b).findings ++
          meant p (if (checkUnder catalog (binder.name :: aliases) b).used.contains aliases.length
            then [] else [⟨.aliasNotUsed binder.name, spans.predicate.or spans.whole,
              (Expr.quantified q a b binder spans).kind⟩])) := by
  simp only [checkUnder, findings_append, meant_append, h.meant_collectionFindings,
    List.nil_append]

end Names

/-! ## Unknown variables -/

/-- The unknown variables among some findings. -/
def unknown (findings : List Located) : List Located :=
  findings.filter fun located => located.finding.code = .unknownVariable

theorem unknown_eq_meant (findings : List Located) :
    unknown findings = meant (·.code = .unknownVariable) findings := rfl

theorem names_unknown : Names (·.code = .unknownVariable) := by
  constructor <;> intros <;> rfl

/-- A variable means something when it is bound by an alias or a catalog path. -/
theorem knows_iff {path : String} :
    catalog.Knows aliases path ↔
      (bindingLevel? path aliases).isSome = true ∨ catalog.contains path = true := by
  refine or_congr ?_ Iff.rfl
  rw [Option.isSome_iff_ne_none, ne_eq, bindingLevel?_eq_none]
  simp

/-- **The unknown variables that the check reports** are the occurrences that mean nothing where
they stand, each once and from left to right. -/
theorem unknown_checkUnder (catalog : Catalog) (aliases : List String) (e : Expr) :
    unknown (checkUnder catalog aliases e).findings =
      ((e.sites aliases).filter fun site => ¬catalog.Knows site.aliases site.path).map
        Site.unknown := by
  induction e generalizing aliases with
  | literal => rfl
  | reference path span =>
    rw [checkUnder, sites]
    cases hlevel : bindingLevel? path aliases with
    | some level => simp [knows_iff, hlevel, unknown]
    | none =>
      by_cases hcontains : catalog.contains path = true
      · simp [knows_iff, hcontains, unknown, Report.empty]
      · simp [knows_iff, hlevel, hcontains, unknown, Finding.code, Site.unknown]
  | not _ _ _ ih => exact ih aliases
  | binary op a b s t iha ihb =>
    rw [unknown_eq_meant, names_unknown.meant_binary, ← unknown_eq_meant, ← unknown_eq_meant, iha,
      ihb, sites, List.filter_append, List.map_append]
  | quantified q a b binder spans iha ihb =>
    have hunused : ∀ (used : Bool) (located : Located), located.finding.code = .invalidQuantifier →
        meant (·.code = .unknownVariable) (if used then [] else [located]) = [] := by
      intro used located hcode
      cases used <;> simp [meant, hcode]
    rw [unknown_eq_meant, names_unknown.meant_quantified, hunused _ _ rfl, List.append_nil,
      ← unknown_eq_meant, ← unknown_eq_meant, iha, ihb, sites, List.filter_append, List.map_append]

end Expr

end Criteria
