import Criteria.Logic.Import
import Criteria.Proofs.Except
import Criteria.Proofs.Expr.Alike

/-!
# Chains of a connective

An import folds a list of operands into a chain that associates to the left, and compiling puts the
operands of a chain back into a list. So the chain of some operands is known by the operands that
each of them contributes (`Expr.toLogic_joinAll`), and joining two chains is, up to association,
joining their operands (`Expr.alike_joinAll`). In the other direction, an operand of a connective is
imported as the chain of the operands that it contributes
(`Expr.exists_ofLogicList_operands`).
-/

namespace Criteria.Expr

/-! ## Joined operands -/

theorem joinAll_append (c : Connective) (first : Expr) (xs ys : List Expr) :
    joinAll c first (xs ++ ys) = joinAll c (joinAll c first xs) ys :=
  List.foldl_append

/-- **A chain is compiled to the operands that its operands contribute.** -/
theorem toLogic_joinAll (c : Connective) (first second : Expr) (rest : List Expr) :
    (joinAll c first (second :: rest)).toLogic = .object
      [(c.key, .array ((first :: second :: rest).flatMap fun e => c.operands e.toLogic))] := by
  induction rest generalizing first second with
  | nil =>
    rw [List.flatMap_cons, List.flatMap_cons, List.flatMap_nil, List.append_nil]
    rfl
  | cons third rest ih =>
    -- the first two operands are one operand of the shorter chain, which contributes both of theirs
    refine (ih (.binary (.logical c) first second none none) third).trans ?_
    simp only [List.flatMap_cons, toLogic, Connective.operands_self, List.append_assoc]

/-- A chain contributes to a connective of its own what its operands contribute. -/
theorem operands_joinAll (c : Connective) (first : Expr) (rest : List Expr) :
    c.operands (joinAll c first rest).toLogic =
      (first :: rest).flatMap fun e => c.operands e.toLogic := by
  cases rest with
  | nil => exact (List.append_nil _).symm
  | cons second rest => rw [toLogic_joinAll, Connective.operands_self]

/-- **A chain behind an operand associates to the left.** -/
theorem alike_joinAll (c : Connective) (first second : Expr) (rest : List Expr) :
    (joinAll c first (second :: rest)).Alike
      (.binary (.logical c) first (joinAll c second rest) none none) := by
  induction rest generalizing first second with
  | nil => exact .refl _
  | cons third rest ih =>
    have hshorter := ih (.binary (.logical c) first second none none) third
    have hright : Alike
        (.binary (.logical c) first (.binary (.logical c) second (joinAll c third rest) none none)
          none none)
        (.binary (.logical c) first (joinAll c second (third :: rest)) none none) :=
      .binary (.refl first) (ih second third).symm
    exact (hshorter.trans .assoc).trans hright

/-! ## Imported operands -/

variable {catalog : Catalog} {aliases : List String}

theorem ofLogicList_append {xs ys : List Json} {es fs : List Expr}
    (hxs : ofLogicList catalog aliases xs = .ok es) (hys : ofLogicList catalog aliases ys = .ok fs) :
    ofLogicList catalog aliases (xs ++ ys) = .ok (es ++ fs) := by
  induction xs generalizing es with
  | nil =>
    cases hxs
    exact hys
  | cons x xs ih =>
    obtain ⟨e, he, hxs⟩ := bind_ok hxs
    obtain ⟨es, hes, hxs⟩ := bind_ok hxs
    cases hxs
    rw [List.cons_append, ofLogicList, he, ih hes]
    rfl

theorem ofLogic_logical (c : Connective) (first : Json) (rest : List Json) :
    ofLogic catalog aliases (.object [(c.key, .array (first :: rest))]) = (do
      return joinAll c (← ofLogic catalog aliases first)
        (← ofLogicList catalog aliases rest)) := by
  cases c <;> rfl

/-- Operands are imported as their chain. -/
theorem ofLogic_of_ofLogicList (c : Connective) {items : List Json} {first : Expr}
    {rest : List Expr} (h : ofLogicList catalog aliases items = .ok (first :: rest)) :
    ofLogic catalog aliases (.object [(c.key, .array items)]) = .ok (joinAll c first rest) := by
  cases items with
  | nil => cases h
  | cons item items =>
    obtain ⟨e, he, h⟩ := bind_ok h
    obtain ⟨es, hes, h⟩ := bind_ok h
    cases h
    rw [ofLogic_logical, he, hes]
    rfl

/-- **An operand is imported as the chain of the operands that it contributes.** -/
theorem exists_ofLogicList_operands (c : Connective) {value : Json} {e : Expr}
    (h : ofLogic catalog aliases value = .ok e) :
    ∃ first rest, ofLogicList catalog aliases (c.operands value) = .ok (first :: rest) ∧
      joinAll c first rest = e := by
  rcases c.operands_cases value with hsingle | hchain
  · rw [hsingle]
    refine ⟨e, [], ?_, rfl⟩
    rw [ofLogicList, h]
    rfl
  · rw [hchain] at h
    cases hitems : c.operands value with
    | nil =>
      rw [hitems] at h
      cases c <;> cases h
    | cons item items =>
      rw [hitems, ofLogic_logical] at h
      obtain ⟨first, hfirst, h⟩ := bind_ok h
      obtain ⟨rest, hrest, h⟩ := bind_ok h
      cases h
      refine ⟨first, rest, ?_, rfl⟩
      rw [ofLogicList, hfirst, hrest]
      rfl

end Criteria.Expr
