import Criteria.Logic.Compile
import Criteria.Proofs.Expr.Typing

/-!
# Renaming an alias

`Expr.renameAlias new e` gives the alias of the quantifier `e` another name, in its binding and in
the variables that it binds. A variable that is relative to an alias is bound by the innermost
quantifier around it with that alias. `Expr.Replaces a b e e'` says that `e'` is the condition `e`
with `b` in the place of one part `a`; renaming an alias somewhere in a condition is such a
replacement. Renaming changes paths and names only, so the compiled condition stays as high as it
was (`Expr.sameHeight_renameAlias`, `Expr.Replaces.sameHeight`).
-/

namespace Criteria

/-! ## Paths -/

namespace Path

/-- The path with another name in the place of an alias that it is relative to. -/
def rename (old new path : String) : String :=
  if path = old then new
  else match after? old path with
    | some rest => new ++ "." ++ rest
    | none => path

theorem rename_self (old new : String) : rename old new old = new := if_pos rfl

theorem rename_append (old new rest : String) :
    rename old new (old ++ "." ++ rest) = new ++ "." ++ rest := by
  rw [rename, if_neg (append_ne_self old rest), after?_append]

theorem rename_eq_self {old new path : String} (h : isRelativeTo old path = false) :
    rename old new path = path := by
  obtain ⟨hname, hafter⟩ := Bool.or_eq_false_iff.1 h
  rw [decide_eq_false_iff_not] at hname
  rw [Option.isSome_eq_false_iff, Option.isNone_iff_eq_none] at hafter
  rw [rename, if_neg hname, hafter]

/-- Renaming back gives the path, when it is not relative to the new name already. -/
theorem rename_rename {old new path : String} (h : isRelativeTo new path = false) :
    rename new old (rename old new path) = path := by
  cases hrelative : isRelativeTo old path with
  | false => rw [rename_eq_self hrelative, rename_eq_self h]
  | true =>
    rcases cases_of_isRelativeTo hrelative with rfl | ⟨rest, -, rfl⟩
    · rw [rename_self, rename_self]
    · rw [rename_append, rename_append]

end Path

/-! ## Conditions -/

namespace Expr

/-- The condition with another name for the alias of a quantifier around it, when `inner` are the
aliases of the quantifiers in between. -/
def renameBound (old new : String) (inner : List String) : Expr → Expr
  | .literal value span => .literal value span
  | .reference path span =>
    .reference (if old ∈ inner then path else Path.rename old new path) span
  | .not argument span operatorSpan => .not (argument.renameBound old new inner) span operatorSpan
  | .binary op left right span operatorSpan =>
    .binary op (left.renameBound old new inner) (right.renameBound old new inner) span operatorSpan
  | .quantified q collection predicate binder spans =>
    .quantified q (collection.renameBound old new inner)
      (predicate.renameBound old new (binder.name :: inner)) binder spans

/-- The alias of a quantifier. -/
def alias? : Expr → Option String
  | .quantified _ _ _ binder _ => some binder.name
  | _ => none

/-- The quantifier with another alias, which is written out. -/
def renameAlias (new : String) : Expr → Expr
  | .quantified q collection predicate binder spans =>
    .quantified q collection (predicate.renameBound binder.name new []) ⟨new, true⟩ spans
  | e => e

/-- No variable of the condition is relative to the name. -/
def Fresh (name : String) (e : Expr) : Prop :=
  ∀ occurrence ∈ e.references, Path.isRelativeTo name occurrence.1 = false

instance (name : String) (e : Expr) : Decidable (e.Fresh name) :=
  inferInstanceAs (Decidable (∀ _ ∈ _, _))

theorem fresh_reference {name path : String} {span : Option Span} :
    (reference path span).Fresh name ↔ Path.isRelativeTo name path = false :=
  List.forall_mem_singleton

theorem fresh_binary {name : String} {op : BinaryOp} {a b : Expr} {s t : Option Span} :
    (binary op a b s t).Fresh name ↔ a.Fresh name ∧ b.Fresh name :=
  List.forall_mem_append

theorem fresh_quantified {name : String} {q : Quantifier} {a b : Expr} {binder : Alias}
    {s : QuantifierSpans} : (quantified q a b binder s).Fresh name ↔ a.Fresh name ∧ b.Fresh name :=
  List.forall_mem_append

/-- One part of a condition is replaced. -/
inductive Replaces (a b : Expr) : Expr → Expr → Prop
  | here : Replaces a b a b
  | not {e e' : Expr} {span operatorSpan : Option Span} (h : Replaces a b e e') :
    Replaces a b (.not e span operatorSpan) (.not e' span operatorSpan)
  | left {op : BinaryOp} {e e' right : Expr} {span operatorSpan : Option Span}
    (h : Replaces a b e e') :
    Replaces a b (.binary op e right span operatorSpan) (.binary op e' right span operatorSpan)
  | right {op : BinaryOp} {left e e' : Expr} {span operatorSpan : Option Span}
    (h : Replaces a b e e') :
    Replaces a b (.binary op left e span operatorSpan) (.binary op left e' span operatorSpan)
  | collection {q : Quantifier} {e e' predicate : Expr} {binder : Alias} {spans : QuantifierSpans}
    (h : Replaces a b e e') :
    Replaces a b (.quantified q e predicate binder spans) (.quantified q e' predicate binder spans)
  | predicate {q : Quantifier} {collection e e' : Expr} {binder : Alias} {spans : QuantifierSpans}
    (h : Replaces a b e e') :
    Replaces a b (.quantified q collection e binder spans)
      (.quantified q collection e' binder spans)

theorem Replaces.fresh {name : String} {a b e e' : Expr} (h : Replaces a b e e')
    (hfresh : e.Fresh name) : a.Fresh name := by
  induction h with
  | here => exact hfresh
  | not _ ih => exact ih hfresh
  | left _ ih => exact ih (fresh_binary.1 hfresh).1
  | right _ ih => exact ih (fresh_binary.1 hfresh).2
  | collection _ ih => exact ih (fresh_quantified.1 hfresh).1
  | predicate _ ih => exact ih (fresh_quantified.1 hfresh).2

end Expr

/-! ## The height of a compiled condition -/

namespace Json

/-- Two values of one height, also by what they contribute to a connective. -/
structure SameHeight (v w : Json) : Prop where
  height : v.height = w.height
  operands : ∀ c : Connective, heightItems (c.operands v) = heightItems (c.operands w)

theorem SameHeight.refl (v : Json) : SameHeight v v := ⟨rfl, fun _ => rfl⟩

theorem heightItems_append (xs ys : List Json) :
    heightItems (xs ++ ys) = max (heightItems xs) (heightItems ys) := by
  induction xs with
  | nil => exact (Nat.zero_max _).symm
  | cons x xs ih => rw [List.cons_append, heightItems, heightItems, ih, Nat.max_assoc]

/-- The alias of a quantifier has no height. -/
theorem heightItems_alias (p : Prop) [Decidable p] (name : String) :
    heightItems (if p then [.string name] else []) = 0 := by
  split <;> rfl

theorem sameHeight_array (key : String) {items items' : List Json}
    (h : heightItems items = heightItems items') :
    SameHeight (.object [(key, .array items)]) (.object [(key, .array items')]) := by
  have hheight :
      height (.object [(key, .array items)]) = height (.object [(key, .array items')]) := by
    simp only [height, heightFields, h]
  refine ⟨hheight, fun c => ?_⟩
  simp only [Connective.operands]
  split
  · exact h
  · simp only [heightItems, hheight]

theorem sameHeight_not {v w : Json} (h : v.height = w.height) :
    SameHeight (.object [("!", v)]) (.object [("!", w)]) := by
  have hheight : height (.object [("!", v)]) = height (.object [("!", w)]) := by
    simp only [height, heightFields, h]
  have hoperands (c : Connective) (operand : Json) :
      c.operands (.object [("!", operand)]) = [.object [("!", operand)]] := by
    refine (c.operands_cases _).resolve_right fun hchain => ?_
    cases c <;> simp [Connective.key] at hchain
  refine ⟨hheight, fun c => ?_⟩
  simp only [hoperands, heightItems, hheight]

end Json

namespace Expr

open Json

theorem sameHeight_binary (op : BinaryOp) {a b a' b' : Expr} {s t : Option Span}
    (ha : SameHeight a.toLogic a'.toLogic) (hb : SameHeight b.toLogic b'.toLogic) :
    SameHeight (binary op a b s t).toLogic (binary op a' b' s t).toLogic := by
  cases op with
  | logical c =>
    refine sameHeight_array c.key ?_
    rw [heightItems_append, heightItems_append, ha.operands, hb.operands]
  | compare c =>
    refine sameHeight_array c.symbol ?_
    simp only [heightItems, ha.height, hb.height]

/-- The height of a quantifier does not depend on the alias. -/
theorem sameHeight_quantified (q : Quantifier) {a b a' b' : Expr} (binder binder' : Alias)
    (spans : QuantifierSpans) (ha : SameHeight a.toLogic a'.toLogic)
    (hb : SameHeight b.toLogic b'.toLogic) :
    SameHeight (quantified q a b binder spans).toLogic
      (quantified q a' b' binder' spans).toLogic := by
  refine sameHeight_array q.symbol ?_
  simp only [heightItems, heightItems_alias, ha.height, hb.height]

theorem sameHeight_renameBound (old new : String) (inner : List String) (e : Expr) :
    SameHeight e.toLogic (e.renameBound old new inner).toLogic := by
  induction e generalizing inner with
  | literal => exact .refl _
  | reference => exact ⟨rfl, fun _ => rfl⟩
  | not _ _ _ ih => exact sameHeight_not (ih inner).height
  | binary op _ _ _ _ iha ihb => exact sameHeight_binary op (iha inner) (ihb inner)
  | quantified q _ _ binder spans ihc ihp =>
    exact sameHeight_quantified q binder binder spans (ihc inner) (ihp _)

theorem sameHeight_renameAlias (new : String) (e : Expr) :
    SameHeight e.toLogic (e.renameAlias new).toLogic := by
  cases e with
  | quantified q collection predicate binder spans =>
    exact sameHeight_quantified q binder _ spans (.refl _) (sameHeight_renameBound _ _ _ predicate)
  | _ => exact .refl _

/-- A part gives way to one of its height. -/
theorem Replaces.sameHeight {a b e e' : Expr} (h : Replaces a b e e')
    (hab : SameHeight a.toLogic b.toLogic) : SameHeight e.toLogic e'.toLogic := by
  induction h with
  | here => exact hab
  | not _ ih => exact sameHeight_not ih.height
  | left _ ih => exact sameHeight_binary _ ih (.refl _)
  | right _ ih => exact sameHeight_binary _ (.refl _) ih
  | collection _ ih => exact sameHeight_quantified _ _ _ _ ih (.refl _)
  | predicate _ ih => exact sameHeight_quantified _ _ _ _ (.refl _) ih

end Expr

end Criteria
