import Criteria.Check
import Criteria.Expr.Text
import Criteria.Logic.Compile
import Criteria.Proofs.Number.Numeral

/-!
# Conditions up to spans, association and the form of numbers

`Expr.Alike` is the least congruence on syntax trees that forgets the spans, reads numbers by value
and lets chains of one connective associate either way. Conditions that are alike cannot be told
apart later on: they have the same canonical text (`Alike.text_eq`), the same JSON-Logic up to the
form of its numbers (`Alike.toLogic`), the same catalog variables (`Alike.definitionsUnder_eq`), and
the same findings (`Alike.checkUnder_eq`).
-/

namespace Criteria

namespace Report

/-- What a report says, without where. -/
def bare (report : Report) : List Finding × List Nat :=
  (report.findings.map (·.finding), report.used)

theorem bare_mk (findings : List Located) (used : List Nat) :
    (Report.mk findings used).bare = (findings.map (·.finding), used) := rfl

theorem bare_append (a b : Report) :
    (a ++ b).bare = (a.bare.1 ++ b.bare.1, a.bare.2 ++ b.bare.2) := by
  change (List.map _ (a.findings ++ b.findings), a.used ++ b.used) = _
  rw [List.map_append]
  rfl

end Report

namespace Expr

/-- The same condition, but for spans, the association of chains of one connective, and the form of
equal numbers. -/
inductive Alike : Expr → Expr → Prop
  | literal {v w : Scalar} {s t : Option Span} (h : v.Alike w) : Alike (.literal v s) (.literal w t)
  | reference {path : String} {s t : Option Span} : Alike (.reference path s) (.reference path t)
  | not {a b : Expr} {s t s' t' : Option Span} (h : Alike a b) : Alike (.not a s s') (.not b t t')
  | binary {op : BinaryOp} {a b c d : Expr} {s t s' t' : Option Span} (hl : Alike a c)
      (hr : Alike b d) : Alike (.binary op a b s s') (.binary op c d t t')
  | quantified {q : Quantifier} {a b c d : Expr} {binder : Alias} {s t : QuantifierSpans}
      (hc : Alike a c) (hp : Alike b d) :
      Alike (.quantified q a b binder s) (.quantified q c d binder t)
  | assoc {c : Connective} {x y z : Expr} {s t u v s' t' u' v' : Option Span} :
      Alike (.binary (.logical c) (.binary (.logical c) x y s s') z t t')
        (.binary (.logical c) x (.binary (.logical c) y z u u') v v')
  | symm {a b : Expr} (h : Alike a b) : Alike b a
  | trans {a b c : Expr} (h : Alike a b) (h' : Alike b c) : Alike a c

namespace Alike

theorem refl (e : Expr) : Alike e e := by
  induction e with
  | literal v => exact .literal (.refl v)
  | reference => exact .reference
  | not _ _ _ ih => exact .not ih
  | binary _ _ _ _ _ ihl ihr => exact .binary ihl ihr
  | quantified _ _ _ _ _ ihc ihp => exact .quantified ihc ihp

theorem withSpan (e : Expr) (span : Option Span) : Alike (e.withSpan span) e := by
  cases e with
  | literal v => exact .literal (.refl v)
  | reference => exact .reference
  | not => exact .not (.refl _)
  | binary => exact .binary (.refl _) (.refl _)
  | quantified => exact .quantified (.refl _) (.refl _)

/-! ## Canonical text -/

theorem text_scalar_eq {v w : Scalar} (h : v.Alike w) : v.text = w.text := by
  rw [← v.text_exact, ← w.text_exact, Scalar.alike_iff.1 h]

theorem needsGroup_eq {a b : Expr} (h : Alike a b) (op : BinaryOp) :
    needsGroup op a = needsGroup op b := by
  induction h with
  | symm _ ih => exact ih.symm
  | trans _ _ ih ih' => exact ih.trans ih'
  | _ => rfl

theorem needsGroupUnderNot_eq {a b : Expr} (h : Alike a b) :
    needsGroupUnderNot a = needsGroupUnderNot b := by
  induction h with
  | symm _ ih => exact ih.symm
  | trans _ _ ih ih' => exact ih.trans ih'
  | _ => rfl

/-- A chain of one connective needs no parentheses. -/
theorem needsGroup_same (c : Connective) (x y : Expr) (s t : Option Span) :
    needsGroup (.logical c) (.binary (.logical c) x y s t) = false := by
  cases c <;> rfl

/-- **Conditions that are alike have the same canonical text.** -/
theorem text_eq {a b : Expr} (h : Alike a b) : a.text = b.text := by
  induction h with
  | literal h => exact text_scalar_eq h
  | reference => rfl
  | not h ih => rw [text, text, ih, h.needsGroupUnderNot_eq]
  | binary hl hr ihl ihr => rw [text, text, ihl, ihr, hl.needsGroup_eq, hr.needsGroup_eq]
  | quantified _ _ ihc ihp => rw [text, text, ihc, ihp]
  | assoc =>
    simp only [text, needsGroup_same, grouped, Bool.false_eq_true, if_false, String.append_assoc]
  | symm _ ih => exact ih.symm
  | trans _ _ ih ih' => exact ih.trans ih'

end Alike

/-! ## JSON-Logic -/

open Json in
/-- The exact form of the operands are the operands of the exact form. -/
theorem exact_operands (c : Connective) (value : Json) :
    (c.operands value).map exact = c.operands value.exact := by
  cases value with
  | scalar => rfl
  | array => rfl
  | object fields =>
    match fields with
    | [] => rfl
    | [(key, .scalar value)] => rfl
    | [(key, .object fields)] => rfl
    | [(key, .array items)] =>
      simp only [Connective.operands, exact, exactFields]
      split
      · exact (exactItems_eq_map items).symm
      · simp only [List.map_cons, List.map_nil, exact, exactFields]
    | (_, value) :: (_, _) :: _ => cases value <;> rfl

open Json in
theorem exact_toLogic_logical (c : Connective) (x y : Expr) (s t : Option Span) :
    (Expr.binary (.logical c) x y s t).toLogic.exact =
      .object [(c.key, .array (c.operands x.toLogic.exact ++ c.operands y.toLogic.exact))] := by
  simp only [toLogic, exact, exactFields, exactItems_eq_map, List.map_append, exact_operands]

open Json in
/-- **Conditions that are alike have the same JSON-Logic, up to the form of its numbers.** -/
theorem Alike.toLogic {a b : Expr} (h : Alike a b) : a.toLogic.Alike b.toLogic := by
  unfold Json.Alike
  induction h with
  | literal h => exact alike_scalar.2 h
  | reference => rfl
  | not _ ih => simp only [Expr.toLogic, exact, exactFields, ih]
  | @binary op _ _ _ _ _ _ _ _ _ _ ihl ihr =>
    cases op with
    | logical c => rw [exact_toLogic_logical, exact_toLogic_logical, ihl, ihr]
    | compare c => simp only [Expr.toLogic, exact, exactFields, exactItems, ihl, ihr]
  | quantified _ _ ihc ihp =>
    simp only [Expr.toLogic, exact, exactFields, exactItems, ihc, ihp]
  | assoc =>
    simp only [Expr.toLogic, Connective.operands_self, List.append_assoc]
  | symm _ ih => exact ih.symm
  | trans _ _ ih ih' => exact ih.trans ih'

/-! ## Variables and findings -/

namespace Alike

/-- Conditions that are alike refer to the same paths in the same order. -/
theorem paths_eq {a b : Expr} (h : Alike a b) :
    a.references.map Prod.fst = b.references.map Prod.fst := by
  induction h with
  | literal => rfl
  | reference => rfl
  | not _ ih => exact ih
  | binary _ _ ihl ihr => rw [references, references, List.map_append, List.map_append, ihl, ihr]
  | quantified _ _ ihc ihp =>
    rw [references, references, List.map_append, List.map_append, ihc, ihp]
  | assoc => simp only [references, List.append_assoc]
  | symm _ ih => exact ih.symm
  | trans _ _ ih ih' => exact ih.trans ih'

/-- Conditions that are alike refer to the same catalog variables in the same order. -/
theorem definitionsUnder_eq {a b : Expr} (h : Alike a b) (catalog : Catalog) :
    catalog.definitionsUnder a = catalog.definitionsUnder b := by
  have hmap : ∀ e : Expr, e.references.filterMap (fun o => catalog.lookup? o.1) =
      (e.references.map Prod.fst).filterMap catalog.lookup? := fun e => by
    rw [List.filterMap_map]
    rfl
  rw [Catalog.definitionsUnder, Catalog.definitionsUnder, hmap, hmap, h.paths_eq]

theorem used_references_eq {a b : Expr} (h : Alike a b) (aliases : List String) :
    a.references.filterMap (fun o => bindingLevel? o.1 aliases) =
      b.references.filterMap (fun o => bindingLevel? o.1 aliases) := by
  have hmap : ∀ e : Expr, e.references.filterMap (fun o => bindingLevel? o.1 aliases) =
      (e.references.map Prod.fst).filterMap (bindingLevel? · aliases) := fun e => by
    rw [List.filterMap_map]
    rfl
  rw [hmap, hmap, h.paths_eq]

/-- What is said about the operator of a comparison depends on the paths under it only. -/
theorem operatorFindings_map (catalog : Catalog) (aliases : List String) (c : Comparison) (e : Expr)
    (span : Option Span) :
    (operatorFindings catalog aliases c e span).map (·.finding) =
      (e.references.map Prod.fst).filterMap fun path =>
        match bindingLevel? path aliases, catalog.lookup? path with
        | none, some d =>
          if d.comparisons.contains c then none else some (.operatorNotAllowed c d.path)
        | _, _ => none := by
  rw [operatorFindings, List.map_filterMap, List.filterMap_map]
  congr 1
  funext o
  simp only [Function.comp]
  cases bindingLevel? o.1 aliases with
  | some level => rfl
  | none =>
    cases catalog.lookup? o.1 with
    | none => rfl
    | some d =>
      simp only
      split <;> rfl

theorem operatorFindings_eq {a b : Expr} (h : Alike a b) (catalog : Catalog) (aliases : List String)
    (c : Comparison) (s t : Option Span) :
    (operatorFindings catalog aliases c a s).map (·.finding) =
      (operatorFindings catalog aliases c b t).map (·.finding) := by
  rw [operatorFindings_map, operatorFindings_map, h.paths_eq]

theorem kind_scalar_eq {v w : Scalar} (h : v.Alike w) : v.kind = w.kind := by
  have hexact : ∀ u : Scalar, u.exact.kind = u.kind := fun u => by
    cases u with
    | double d =>
      rcases Scalar.exact_double d with ⟨n, hd⟩ | hd
      · rw [hd]
        rfl
      · rw [hd]
    | _ => rfl
  rw [← hexact v, ← hexact w, Scalar.alike_iff.1 h]

theorem literalFindings_eq {a b : Expr} (h : Alike a b) (others : List Definition) (e f : Expr) :
    (literalFindings a others e).map (·.finding) = (literalFindings b others f).map (·.finding) := by
  induction h generalizing e f with
  | literal h =>
    simp only [literalFindings, List.map_filterMap, kind_scalar_eq h]
    congr 1
    funext d
    split <;> rfl
  | symm _ ih => exact (ih f e).symm
  | trans _ _ ih ih' => exact (ih e f).trans (ih' f f)
  | _ => rfl

theorem variableFindings_map (c : Comparison) (lefts rights : List Definition) (e f : Expr)
    (s t : Option Span) :
    (variableFindings c lefts rights e s).map (·.finding) =
      (variableFindings c lefts rights f t).map (·.finding) := by
  simp only [variableFindings, List.map_map]
  rfl

theorem collectionFindings_eq {a b : Expr} (h : Alike a b) (catalog : Catalog) (q : Quantifier)
    (e f : Expr) :
    (collectionFindings catalog q a e).map (·.finding) =
      (collectionFindings catalog q b f).map (·.finding) := by
  induction h generalizing e f with
  | @reference path =>
    simp only [collectionFindings]
    cases catalog.lookup? path with
    | none => rfl
    | some d =>
      simp only
      split <;> rfl
  | symm _ ih => exact (ih f e).symm
  | trans _ _ ih ih' => exact (ih e f).trans (ih' f f)
  | _ => rfl

/-- Conditions that are alike are reported on alike. -/
theorem checkUnder_eq {a b : Expr} (h : Alike a b) (catalog : Catalog) (aliases : List String) :
    (checkUnder catalog aliases a).bare = (checkUnder catalog aliases b).bare := by
  induction h generalizing aliases with
  | literal => rfl
  | @reference path =>
    simp only [checkUnder]
    cases bindingLevel? path aliases with
    | some level => rfl
    | none =>
      simp only
      split <;> rfl
  | not _ ih => exact ih aliases
  | @binary op a b c d s t s' t' hl hr ihl ihr =>
    cases op with
    | logical =>
      simp only [checkUnder, Report.bare_append, ihl, ihr]
    | compare comparison =>
      have hboth : Alike (.binary (.compare comparison) a b s s')
          (.binary (.compare comparison) c d t t') := .binary hl hr
      simp only [checkUnder, Report.bare_append, ihl, ihr, hl.definitionsUnder_eq,
        hr.definitionsUnder_eq, Report.bare_mk, List.map_append, hboth.used_references_eq]
      rw [operatorFindings_eq hboth, literalFindings_eq hl, literalFindings_eq hr,
        variableFindings_map]
  | @quantified q a b c d binder s t hc hp ihc ihp =>
    have hinside := ihp (binder.name :: aliases)
    simp only [Report.bare, Prod.mk.injEq] at hinside
    simp only [checkUnder, Report.bare_append, ihc, Report.bare_mk, List.map_append, hinside.1,
      hinside.2]
    rw [collectionFindings_eq hc]
    split <;> rfl
  | assoc => simp only [checkUnder, Report.bare_append, List.append_assoc]
  | symm _ ih => exact (ih aliases).symm
  | trans _ _ ih ih' => exact (ih aliases).trans (ih' aliases)

/-- **A catalog allows a condition when it allows one that is alike.** -/
theorem check_eq_nil {a b : Expr} (h : Alike a b) (catalog : Catalog) :
    a.check catalog = [] ↔ b.check catalog = [] := by
  have hbare := congrArg Prod.fst (h.checkUnder_eq catalog [])
  simp only [Report.bare] at hbare
  rw [check, check, ← List.map_eq_nil_iff (f := (·.finding)), hbare, List.map_eq_nil_iff]

end Alike

end Expr

end Criteria
