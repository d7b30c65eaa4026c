import Criteria.Proofs.Expr.Alike
import Mathlib.Data.List.Forall2

/-!
# The outline of what the check finds

`Report.outline` is a report without names and places: the codes of its findings and the levels of
the aliases that were mentioned. Conditions that differ in their names only have the same outline
when they are checked alike (`Expr.CheckedAlike`): their variables are on the same levels wherever
the check asks for it, and have the same definitions wherever it looks them up
(`Expr.CheckedAlike.outline_eq`).
-/

namespace Criteria

namespace Report

/-- The codes of a report, and the levels of the aliases that were mentioned. -/
def outline (report : Report) : List ErrorCode × List Nat :=
  (report.findings.map (·.finding.code), report.used)

theorem outline_mk (findings : List Located) (used : List Nat) :
    (Report.mk findings used).outline = (findings.map (·.finding.code), used) := rfl

theorem outline_append (a b : Report) :
    (a ++ b).outline = (a.outline.1 ++ b.outline.1, a.outline.2 ++ b.outline.2) := by
  change (List.map _ (a.findings ++ b.findings), a.used ++ b.used) = _
  rw [List.map_append]
  rfl

end Report

/-- Choosing alike from related lists. -/
theorem filterMap_eq_of_forall₂ {α β γ : Type} {R : α → β → Prop} {f : α → Option γ}
    {g : β → Option γ} (hfg : ∀ a b, R a b → f a = g b) {as : List α} {bs : List β}
    (h : List.Forall₂ R as bs) : as.filterMap f = bs.filterMap g := by
  induction h with
  | nil => rfl
  | cons hab _ ih => rw [List.filterMap_cons, List.filterMap_cons, hfg _ _ hab, ih]

namespace Expr

/-- Under two lists of aliases two variables are on the same level, and have the same definition. -/
def SameVariable (catalog : Catalog) (aliases aliases' : List String)
    (o o' : String × Option Span) : Prop :=
  bindingLevel? o.1 aliases = bindingLevel? o'.1 aliases' ∧
    catalog.lookup? o.1 = catalog.lookup? o'.1

/-- The two conditions are checked alike, each under aliases of its own. -/
inductive CheckedAlike (catalog : Catalog) : List String → List String → Expr → Expr → Prop
  | literal {aliases aliases' : List String} {value : Scalar} {s s' : Option Span} :
      CheckedAlike catalog aliases aliases' (.literal value s) (.literal value s')
  | reference {aliases aliases' : List String} {path path' : String} {s s' : Option Span}
      (hlevel : bindingLevel? path aliases = bindingLevel? path' aliases')
      (hlookup : bindingLevel? path aliases = none →
        catalog.lookup? path = catalog.lookup? path') :
      CheckedAlike catalog aliases aliases' (.reference path s) (.reference path' s')
  | not {aliases aliases' : List String} {a a' : Expr} {s t s' t' : Option Span}
      (h : CheckedAlike catalog aliases aliases' a a') :
      CheckedAlike catalog aliases aliases' (.not a s t) (.not a' s' t')
  | logical {aliases aliases' : List String} {c : Connective} {a b a' b' : Expr}
      {s t s' t' : Option Span} (ha : CheckedAlike catalog aliases aliases' a a')
      (hb : CheckedAlike catalog aliases aliases' b b') :
      CheckedAlike catalog aliases aliases' (.binary (.logical c) a b s t)
        (.binary (.logical c) a' b' s' t')
  | compare {aliases aliases' : List String} {c : Comparison} {a b a' b' : Expr}
      {s t s' t' : Option Span} (ha : CheckedAlike catalog aliases aliases' a a')
      (hb : CheckedAlike catalog aliases aliases' b b')
      (hleft : List.Forall₂ (SameVariable catalog aliases aliases') a.references a'.references)
      (hright : List.Forall₂ (SameVariable catalog aliases aliases') b.references b'.references) :
      CheckedAlike catalog aliases aliases' (.binary (.compare c) a b s t)
        (.binary (.compare c) a' b' s' t')
  | quantified {aliases aliases' : List String} {q : Quantifier} {a b a' b' : Expr}
      {binder binder' : Alias} {spans spans' : QuantifierSpans}
      (ha : CheckedAlike catalog aliases aliases' a a')
      (hcollection : ∀ e e' : Expr, (collectionFindings catalog q a e).map (·.finding.code) =
        (collectionFindings catalog q a' e').map (·.finding.code))
      (hb : CheckedAlike catalog (binder.name :: aliases) (binder'.name :: aliases') b b') :
      CheckedAlike catalog aliases aliases' (.quantified q a b binder spans)
        (.quantified q a' b' binder' spans')

variable {catalog : Catalog} {aliases aliases' : List String}

theorem definitionsUnder_eq_of_forall₂ {e e' : Expr}
    (h : List.Forall₂ (SameVariable catalog aliases aliases') e.references e'.references) :
    catalog.definitionsUnder e = catalog.definitionsUnder e' := by
  rw [Catalog.definitionsUnder, Catalog.definitionsUnder,
    filterMap_eq_of_forall₂ (fun _ _ hsame => hsame.2) h]

theorem used_eq_of_forall₂ {e e' : Expr}
    (h : List.Forall₂ (SameVariable catalog aliases aliases') e.references e'.references) :
    e.references.filterMap (fun o => bindingLevel? o.1 aliases) =
      e'.references.filterMap (fun o => bindingLevel? o.1 aliases') :=
  filterMap_eq_of_forall₂ (fun _ _ hsame => hsame.1) h

theorem operatorFindings_eq_of_forall₂ {e e' : Expr}
    (h : List.Forall₂ (SameVariable catalog aliases aliases') e.references e'.references)
    (c : Comparison) (s s' : Option Span) :
    (operatorFindings catalog aliases c e s).map (·.finding.code) =
      (operatorFindings catalog aliases' c e' s').map (·.finding.code) := by
  rw [operatorFindings, operatorFindings, List.map_filterMap, List.map_filterMap]
  refine filterMap_eq_of_forall₂ ?_ h
  rintro ⟨path, span⟩ ⟨path', span'⟩ ⟨hlevel, hlookup⟩
  simp only at hlevel hlookup ⊢
  rw [hlevel, hlookup]
  cases bindingLevel? path' aliases' with
  | some level => rfl
  | none =>
    cases catalog.lookup? path' with
    | none => rfl
    | some d =>
      simp only
      split <;> rfl

theorem CheckedAlike.literalFindings_eq {a a' : Expr}
    (h : CheckedAlike catalog aliases aliases' a a') (others : List Definition) (e e' : Expr) :
    (literalFindings a others e).map (·.finding.code) =
      (literalFindings a' others e').map (·.finding.code) := by
  cases h with
  | literal =>
    simp only [literalFindings, List.map_filterMap]
    congr 1
    funext d
    split <;> rfl
  | _ => rfl

/-- The codes of the same findings. -/
theorem codes_eq {found found' : List Located}
    (h : found.map (·.finding) = found'.map (·.finding)) :
    found.map (·.finding.code) = found'.map (·.finding.code) := by
  have hcodes := congrArg (List.map Finding.code) h
  rwa [List.map_map, List.map_map] at hcodes

theorem collectionFindings_codes (q : Quantifier) (collection e e' : Expr) :
    (collectionFindings catalog q collection e).map (·.finding.code) =
      (collectionFindings catalog q collection e').map (·.finding.code) :=
  codes_eq ((Alike.refl collection).collectionFindings_eq catalog q e e')

theorem CheckedAlike.refl (e : Expr) : CheckedAlike catalog aliases aliases e e := by
  induction e generalizing aliases with
  | literal => exact .literal
  | reference => exact .reference rfl fun _ => rfl
  | not _ _ _ ih => exact .not ih
  | binary op a b _ _ iha ihb =>
    have hsame : ∀ e : Expr,
        List.Forall₂ (SameVariable catalog aliases aliases) e.references e.references :=
      fun e => List.forall₂_same.2 fun _ _ => ⟨rfl, rfl⟩
    cases op with
    | logical => exact .logical iha ihb
    | compare => exact .compare iha ihb (hsame a) (hsame b)
  | quantified q a b binder _ iha ihb =>
    exact .quantified iha (collectionFindings_codes q a) ihb

/-- **Conditions that are checked alike have the same outline.** -/
theorem CheckedAlike.outline_eq {e e' : Expr} (h : CheckedAlike catalog aliases aliases' e e')
    (hlength : aliases.length = aliases'.length) :
    (checkUnder catalog aliases e).outline = (checkUnder catalog aliases' e').outline := by
  induction h with
  | literal => rfl
  | @reference aliases aliases' path path' _ _ hlevel hlookup =>
    rw [checkUnder, checkUnder, ← hlevel]
    cases hbound : bindingLevel? path aliases with
    | some level => rfl
    | none =>
      have hcontains : catalog.contains path = catalog.contains path' :=
        congrArg Option.isSome (hlookup hbound)
      simp only [hcontains]
      cases catalog.contains path' <;> rfl
  | not _ ih => exact ih hlength
  | logical _ _ iha ihb =>
    simp only [checkUnder, Report.outline_append, iha hlength, ihb hlength]
  | @compare aliases aliases' c a b a' b' s t s' t' ha hb hleft hright iha ihb =>
    have hboth : List.Forall₂ (SameVariable catalog aliases aliases')
        (Expr.binary (.compare c) a b s t).references
        (Expr.binary (.compare c) a' b' s' t').references := List.rel_append hleft hright
    have hoperator := operatorFindings_eq_of_forall₂ hboth c t t'
    have hliteral := ha.literalFindings_eq (catalog.definitionsUnder b')
      (.binary (.compare c) a b s t) (.binary (.compare c) a' b' s' t')
    have hliteral' := hb.literalFindings_eq (catalog.definitionsUnder a')
      (.binary (.compare c) a b s t) (.binary (.compare c) a' b' s' t')
    have hvariable := codes_eq (Alike.variableFindings_map c (catalog.definitionsUnder a')
      (catalog.definitionsUnder b') (.binary (.compare c) a b s t)
      (.binary (.compare c) a' b' s' t') t t')
    simp only [checkUnder, Report.outline_append, iha hlength, ihb hlength, Report.outline_mk,
      List.map_append, used_eq_of_forall₂ hboth, definitionsUnder_eq_of_forall₂ hleft,
      definitionsUnder_eq_of_forall₂ hright, hoperator, hliteral, hliteral', hvariable]
  | @quantified aliases aliases' q a b a' b' binder binder' spans spans' ha hcollection hb iha
      ihb =>
    have hinside := ihb (congrArg Nat.succ hlength)
    simp only [Report.outline, Prod.mk.injEq] at hinside
    have hfound := hcollection (.quantified q a b binder spans) (.quantified q a' b' binder' spans')
    simp only [checkUnder, Report.outline_append, iha hlength, Report.outline_mk, List.map_append,
      hinside.1, hinside.2, hlength, hfound]
    split <;> rfl

end Expr

end Criteria
