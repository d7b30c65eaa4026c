import Criteria.Proofs.Logic.Reimport
import Mathlib.Data.List.Forall2

/-!
# Two canonical forms

A condition has two canonical forms, its text and its JSON-Logic. Each of them determines the
condition up to spans, the association of chains and the form of numbers, so each determines the
other (`Condition.canonical_eq_iff_logic_alike`).

The text does so because it can be read back. JSON-Logic has lost how chains associate: a list of
operands determines the factors of a chain, in order (`Expr.operands_toLogic`), and the factors
determine the chain (`Expr.alike_of_factors`).
-/

namespace Criteria

namespace Expr

/-! ## The operation at a node -/

/-- The operation that a condition is compiled to; a literal is compiled to none. -/
def operation? : Expr → Option Operation
  | .literal .. => none
  | .reference .. => some .variable
  | .not .. => some .not
  | .binary (.logical c) .. => some (.logical c)
  | .binary (.compare c) .. => some (.compare c)
  | .quantified q .. => some (.quantify q)

theorem exists_toLogic {e : Expr} {op : Operation} (h : e.operation? = some op) :
    ∃ operand, e.toLogic = .object [(op.key, operand)] := by
  cases e with
  | literal => cases h
  | binary op' =>
    cases op' <;> cases h <;> exact ⟨_, rfl⟩
  | _ => cases h; exact ⟨_, rfl⟩

theorem exists_toLogic_exact {e : Expr} {op : Operation} (h : e.operation? = some op) :
    ∃ operand, e.toLogic.exact = .object [(op.key, operand)] := by
  obtain ⟨operand, hlogic⟩ := exists_toLogic h
  exact ⟨operand.exact, by rw [hlogic]; rfl⟩

/-- The key of the JSON-Logic says which operation it comes from. -/
theorem operation?_of_toLogic {e : Expr} {op : Operation} {operand : Json}
    (h : e.toLogic.exact = .object [(op.key, operand)]) : e.operation? = some op := by
  cases hop : e.operation? with
  | none =>
    cases e with
    | literal => cases h
    | binary op' => cases op' <;> cases hop
    | _ => cases hop
  | some op' =>
    obtain ⟨operand', hlogic⟩ := exists_toLogic_exact hop
    rw [hlogic] at h
    simp only [Json.object.injEq, List.cons.injEq, Prod.mk.injEq] at h
    rw [key_injective h.1.1]

/-- Conditions with the same JSON-Logic have the same operation. -/
theorem operation?_of_alike {a b : Expr} (h : a.toLogic.Alike b.toLogic) :
    a.operation? = b.operation? := by
  cases ha : a.operation? with
  | some op =>
    obtain ⟨operand, hlogic⟩ := exists_toLogic_exact ha
    exact (operation?_of_toLogic (h.symm.trans hlogic)).symm
  | none =>
    cases hb : b.operation? with
    | none => rfl
    | some op =>
      obtain ⟨operand, hlogic⟩ := exists_toLogic_exact hb
      rw [operation?_of_toLogic (h.trans hlogic)] at ha
      cases ha

theorem exists_of_operation?_logical {e : Expr} {c : Connective}
    (h : e.operation? = some (.logical c)) :
    ∃ left right s t, e = .binary (.logical c) left right s t := by
  cases e with
  | binary op left right s t =>
    cases op with
    | logical => cases h; exact ⟨left, right, s, t, rfl⟩
    | compare => cases h
  | _ => cases h

/-! ## The factors of a chain -/

/-- The operands of a chain of the connective, from left to right; another condition is the one
factor of itself. -/
def factors (c : Connective) : Expr → List Expr
  | .binary (.logical c') left right s t =>
    if c' = c then left.factors c ++ right.factors c else [.binary (.logical c') left right s t]
  | e => [e]

theorem factors_chain (c : Connective) (left right : Expr) (s t : Option Span) :
    (binary (.logical c) left right s t).factors c = left.factors c ++ right.factors c :=
  if_pos rfl

/-- What is no chain of the connective is the one factor of itself. -/
theorem factors_of_ne {c : Connective} {e : Expr} (h : e.operation? ≠ some (.logical c)) :
    e.factors c = [e] := by
  cases e with
  | binary op =>
    cases op with
    | logical c' => exact if_neg fun hc => h (by rw [hc]; rfl)
    | compare => rfl
  | _ => rfl

/-- What is no chain of the connective contributes itself to a list of operands. -/
theorem operands_of_ne {c : Connective} {e : Expr} (h : e.operation? ≠ some (.logical c)) :
    c.operands e.toLogic = [e.toLogic] := by
  refine (c.operands_cases _).resolve_right fun hchain => h ?_
  refine @operation?_of_toLogic e _ (Json.array (c.operands e.toLogic)).exact ?_
  rw [hchain]
  simp only [Json.exact, Json.exactFields, Connective.operands_self, Operation.key]

/-- **A condition contributes its factors to a list of operands.** -/
theorem operands_toLogic (c : Connective) (e : Expr) :
    c.operands e.toLogic = (e.factors c).map toLogic := by
  by_cases hchain : e.operation? = some (.logical c)
  · obtain ⟨left, right, s, t, rfl⟩ := exists_of_operation?_logical hchain
    rw [toLogic, Connective.operands_self, factors_chain, List.map_append,
      operands_toLogic c left, operands_toLogic c right]
  · rw [operands_of_ne hchain, factors_of_ne hchain, List.map_singleton]
termination_by e

/-- **A condition is the chain of its factors**, up to association. -/
theorem exists_factors (c : Connective) (e : Expr) :
    ∃ first rest, e.factors c = first :: rest ∧ e.Alike (joinAll c first rest) := by
  by_cases hchain : e.operation? = some (.logical c)
  · obtain ⟨left, right, s, t, rfl⟩ := exists_of_operation?_logical hchain
    obtain ⟨f, fs, hleft, halike⟩ := exists_factors c left
    obtain ⟨g, gs, hright, halike'⟩ := exists_factors c right
    refine ⟨f, fs ++ g :: gs, ?_, ?_⟩
    · rw [factors_chain, hleft, hright, List.cons_append]
    · have hjoined := (alike_joinAll c (joinAll c f fs) g gs).symm
      rw [joinAll_append]
      exact (Alike.binary halike halike').trans hjoined
  · exact ⟨e, [], factors_of_ne hchain, .refl e⟩
termination_by e

theorem alike_joinAll_of_forall₂ (c : Connective) {first first' : Expr} {rest rest' : List Expr}
    (hfirst : first.Alike first') (hrest : List.Forall₂ Alike rest rest') :
    (joinAll c first rest).Alike (joinAll c first' rest') := by
  induction hrest generalizing first first' with
  | nil => exact hfirst
  | cons hnext _ ih => exact ih (.binary hfirst hnext)

/-- **Conditions whose factors are alike are alike.** -/
theorem alike_of_factors (c : Connective) {a b : Expr}
    (h : List.Forall₂ Alike (a.factors c) (b.factors c)) : a.Alike b := by
  obtain ⟨f, fs, ha, halike⟩ := exists_factors c a
  obtain ⟨g, gs, hb, halike'⟩ := exists_factors c b
  rw [ha, hb, List.forall₂_cons] at h
  exact halike.trans ((alike_joinAll_of_forall₂ c h.1 h.2).trans halike'.symm)

/-! ## What the JSON-Logic of a condition determines -/

/-- What the JSON-Logic of a quantifier keeps of its alias. -/
def keptAlias (binder : Alias) : List Json :=
  if binder.written || binder.name != defaultAlias then [.string binder.name] else []

theorem exact_quantified (q : Quantifier) (collection predicate : Expr) (binder : Alias)
    (spans : QuantifierSpans) :
    (quantified q collection predicate binder spans).toLogic.exact = .object [(q.symbol,
      .array (collection.toLogic.exact :: predicate.toLogic.exact :: keptAlias binder))] := by
  have hkept : Json.exactItems (keptAlias binder) = keptAlias binder := by
    unfold keptAlias
    split <;> rfl
  change Json.object [(q.symbol, .array (_ :: _ :: Json.exactItems (keptAlias binder)))] = _
  rw [hkept]

/-- An alias that is written out or the default one is known by what is kept of it. -/
theorem eq_of_keptAlias {binder binder' : Alias}
    (h : binder.written = true ∨ binder.name = defaultAlias)
    (h' : binder'.written = true ∨ binder'.name = defaultAlias)
    (hkept : keptAlias binder = keptAlias binder') : binder = binder' := by
  obtain ⟨name, written⟩ := binder
  obtain ⟨name', written'⟩ := binder'
  cases written <;> cases written' <;> simp_all [keptAlias]

/-- A factor of a condition is no larger, and its aliases are shown when those of the condition
are. -/
theorem factors_le (c : Connective) {e f : Expr} (hf : f ∈ e.factors c) :
    sizeOf f ≤ sizeOf e ∧ (e.AliasesShown → f.AliasesShown) := by
  by_cases hchain : e.operation? = some (.logical c)
  · obtain ⟨left, right, s, t, rfl⟩ := exists_of_operation?_logical hchain
    rw [factors_chain, List.mem_append] at hf
    simp only [binary.sizeOf_spec]
    rcases hf with hf | hf
    · obtain ⟨hle, hshown⟩ := factors_le c hf
      exact ⟨by omega, fun h => hshown h.1⟩
    · obtain ⟨hle, hshown⟩ := factors_le c hf
      exact ⟨by omega, fun h => hshown h.2⟩
  · rw [factors_of_ne hchain, List.mem_singleton] at hf
    subst hf
    exact ⟨Nat.le_refl _, id⟩
termination_by e

/-- Conditions with the same JSON-Logic have factors with the same JSON-Logic. -/
theorem forall₂_factors (c : Connective) {a b : Expr} (h : a.toLogic.Alike b.toLogic) :
    List.Forall₂ (fun f g => f.toLogic.Alike g.toLogic) (a.factors c) (b.factors c) := by
  have hoperands : ((a.factors c).map toLogic).map Json.exact =
      ((b.factors c).map toLogic).map Json.exact := by
    rw [← operands_toLogic, ← operands_toLogic, exact_operands, exact_operands, h]
  rw [List.map_map, List.map_map, ← List.forall₂_eq_eq_eq, List.forall₂_map_left_iff,
    List.forall₂_map_right_iff] at hoperands
  exact hoperands

/-- **Conditions with the same JSON-Logic are alike.** -/
theorem alike_of_toLogic {a b : Expr} (ha : a.AliasesShown) (hb : b.AliasesShown)
    (h : a.toLogic.Alike b.toLogic) : a.Alike b := by
  have hop := operation?_of_alike h
  by_cases hchain : ∃ c, a.operation? = some (.logical c)
  · -- chains are compared factor by factor, and the factors are smaller
    obtain ⟨c, hc⟩ := hchain
    refine alike_of_factors c ?_
    have hsmaller : ∀ f ∈ a.factors c, sizeOf f < sizeOf a := by
      obtain ⟨left, right, s, t, rfl⟩ := exists_of_operation?_logical hc
      intro f hf
      rw [factors_chain, List.mem_append] at hf
      simp only [binary.sizeOf_spec]
      rcases hf with hf | hf
      · have := (factors_le c hf).1
        omega
      · have := (factors_le c hf).1
        omega
    refine List.forall₂_iff_get.2 ⟨(forall₂_factors c h).length_eq, fun i hi hj => ?_⟩
    have hf := List.get_mem (a.factors c) ⟨i, hi⟩
    have hg := List.get_mem (b.factors c) ⟨i, hj⟩
    have := hsmaller _ hf
    exact alike_of_toLogic ((factors_le c hf).2 ha) ((factors_le c hg).2 hb)
      ((forall₂_factors c h).get hi hj)
  · cases a with
    | literal v =>
      cases b with
      | literal w => exact .literal (Json.alike_scalar.1 h)
      | binary op' => cases op' <;> cases hop
      | _ => cases hop
    | reference path =>
      cases b with
      | reference path' =>
        obtain rfl : path = path' := by
          simpa [Json.Alike, toLogic, Json.exact, Json.exactFields, Scalar.exact] using h
        exact .reference
      | binary op' => cases op' <;> cases hop
      | _ => cases hop
    | not a =>
      cases b with
      | not b =>
        have hargument : a.toLogic.Alike b.toLogic := by
          simpa [Json.Alike, toLogic, Json.exact, Json.exactFields] using h
        exact .not (alike_of_toLogic ha hb hargument)
      | binary op' => cases op' <;> cases hop
      | _ => cases hop
    | binary op a₁ a₂ =>
      cases op with
      | logical c => exact absurd ⟨c, rfl⟩ hchain
      | compare c =>
        cases b with
        | binary op' b₁ b₂ =>
          cases op' <;> cases hop
          obtain ⟨hleft, hright⟩ : a₁.toLogic.Alike b₁.toLogic ∧ a₂.toLogic.Alike b₂.toLogic := by
            simpa [Json.Alike, toLogic, Json.exact, Json.exactFields, Json.exactItems] using h
          exact .binary (alike_of_toLogic ha.1 hb.1 hleft) (alike_of_toLogic ha.2 hb.2 hright)
        | _ => cases hop
    | quantified q a₁ a₂ binder =>
      cases b with
      | quantified q' b₁ b₂ binder' =>
        cases hop
        obtain ⟨hcollection, hpredicate, hkept⟩ : a₁.toLogic.Alike b₁.toLogic ∧
            a₂.toLogic.Alike b₂.toLogic ∧ keptAlias binder = keptAlias binder' := by
          simpa [Json.Alike, exact_quantified] using h
        obtain rfl := eq_of_keptAlias ha.2.2 hb.2.2 hkept
        exact .quantified (alike_of_toLogic ha.1 hb.1 hcollection)
          (alike_of_toLogic ha.2.1 hb.2.1 hpredicate)
      | binary op' => cases op' <;> cases hop
      | _ => cases hop
termination_by a

/-! ## What the text of a condition determines -/

/-- **Conditions with the same text are alike**, because the text is read as both of them. -/
theorem alike_of_text {a b : Expr} (ha : a.WellFormed) (hb : b.WellFormed) (h : a.text = b.text) :
    a.Alike b := by
  obtain ⟨e, halike, hread⟩ := exists_alike_of_wellFormed ha
  obtain ⟨f, halike', hread'⟩ := exists_alike_of_wellFormed hb
  have he := (hread (max a.nesting b.nesting)).1 (Int.le_max_left ..)
  have hf := (hread' (max a.nesting b.nesting)).1 (Int.le_max_right ..)
  rw [h, hf] at he
  obtain rfl := Except.ok.inj he
  exact halike.symm.trans halike'

end Expr

namespace Condition

/-- **The canonical text and the JSON-Logic are the same canonical form**: two conditions have one
text exactly when they have one JSON-Logic, where numbers count by value. -/
theorem canonical_eq_iff_logic_alike {text text' : String} {catalog catalog' : Catalog}
    {limit limit' : Int} {c c' : Condition} (h : parse text catalog limit = .ok c)
    (h' : parse text' catalog' limit' = .ok c') :
    c.canonical = c'.canonical ↔ c.logic.Alike c'.logic := by
  obtain ⟨-, e, hparse, -, rfl⟩ := parse_eq_ok_iff.1 h
  obtain ⟨-, e', hparse', -, rfl⟩ := parse_eq_ok_iff.1 h'
  have hwell := Expr.wellFormed_of_parse hparse
  have hwell' := Expr.wellFormed_of_parse hparse'
  constructor
  · intro htext
    exact (Expr.alike_of_text hwell hwell' htext).toLogic
  · intro hlogic
    have hshown := ((Expr.wellFormed_iff_readable e).1 hwell).2
    have hshown' := ((Expr.wellFormed_iff_readable e').1 hwell').2
    exact (Expr.alike_of_toLogic hshown hshown' hlogic).text_eq

/-- Groups, blanks and the spelling of numbers and strings leave no trace in either form. -/
theorem canonical_eq_iff_logic_alike_regrouped :
    ∃ c c', parse "(true && 1.50 != .5) && 'a' == null" Catalog.empty 4 = .ok c ∧
      parse "true&&((1.5 != 0.5) && \"a\" == null)" Catalog.empty 4 = .ok c' ∧
        c.canonical = c'.canonical ∧ c.logic.Alike c'.logic := by
  have hfirst : (parse "(true && 1.50 != .5) && 'a' == null" Catalog.empty 4).toOption.map
      (·.canonical) = some "true && 1.5 != 0.5 && \"a\" == null" := by decide +kernel
  have hsecond : (parse "true&&((1.5 != 0.5) && \"a\" == null)" Catalog.empty 4).toOption.map
      (·.canonical) = some "true && 1.5 != 0.5 && \"a\" == null" := by decide +kernel
  obtain ⟨c, hc, hcanonical⟩ := toOption_map_some hfirst
  obtain ⟨c', hc', hcanonical'⟩ := toOption_map_some hsecond
  have hsame := hcanonical.trans hcanonical'.symm
  exact ⟨c, c', hc, hc', hsame, (canonical_eq_iff_logic_alike hc hc').1 hsame⟩

end Condition

end Criteria
