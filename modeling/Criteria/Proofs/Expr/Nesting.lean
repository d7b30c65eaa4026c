import Criteria.Expr.Text
import Criteria.Proofs.Expr.Grammar

/-!
# The nesting of canonical text

`Expr.nesting` is how deep the groups, quantifier arguments and negations of the canonical text of a
condition nest. Canonical text has parentheses around every comparison that stands under a
comparison, which the text that an author wrote need not have. Anywhere else it needs no more of
them: without such comparisons, canonical text nests no deeper than any text of the condition
(`Expr.Reads.depth_le`).
-/

namespace Criteria.Expr

/-- The nesting of a text, in parentheses if asked. -/
def groupedDepth (group : Bool) (n : Nat) : Nat := if group then n + 1 else n

/-- How many groups, quantifier arguments and negations stand around a point of the canonical text
at most. -/
def depth : Expr → Nat
  | .literal .. => 0
  | .reference .. => 0
  | .not argument _ _ => groupedDepth (needsGroupUnderNot argument) argument.depth + 1
  | .binary op left right _ _ =>
    max (groupedDepth (needsGroup op left) left.depth)
      (groupedDepth (needsGroup op right) right.depth)
  | .quantified _ collection predicate _ _ => max collection.depth predicate.depth + 1

/-- The nesting of the canonical text, the whole included. -/
def nesting (e : Expr) : Nat := e.depth + 1

/-- The layer of the grammar at which an expression is derived. -/
def layer : Expr → Layer
  | .binary op _ _ _ _ => .level (Level.of op)
  | _ => .operand

/-! ## Parentheses and layers -/

variable {a : Expr}

/-- An operand without parentheses binds tighter than its operator, or continues a chain of the same
connective. -/
theorem layer_of_not_needsGroup {op : BinaryOp} (h : needsGroup op a = false) :
    (Level.of op).inner.tightness ≤ a.layer.tightness ∨
      a.layer = .level (Level.of op) ∧ ∃ c, op = .logical c := by
  cases a with
  | binary op' left right =>
    cases op with
    | logical c =>
      cases op' with
      | logical c' =>
        cases c <;> cases c'
        · exact .inr ⟨rfl, _, rfl⟩
        · cases h
        · left
          change (Level.of (.logical .or)).inner.tightness ≤ (Level.of (.logical .and)).tightness
          decide
        · exact .inr ⟨rfl, _, rfl⟩
      | compare c' =>
        left
        change (Level.of (.logical c)).inner.tightness ≤ (Level.of (.compare c')).tightness
        cases c <;> cases c' <;> decide
    | compare c =>
      cases op' with
      | logical c' => cases c' <;> cases h
      | compare c' => simp [needsGroup, binding] at h
  | _ => exact .inl (tightness_inner_le _)

/-- The condition is a comparison. -/
def isComparison : Expr → Bool
  | .binary (.compare _) _ _ _ _ => true
  | _ => false

/-- An operand that binds at least as tightly as its operator stands without parentheses, unless
both are comparisons. -/
theorem not_needsGroup_of_tightness {op : BinaryOp}
    (h : (Level.of op).tightness ≤ a.layer.tightness)
    (hapart : ∀ c, op = .compare c → a.isComparison = false) : needsGroup op a = false := by
  cases a with
  | binary op' left right =>
    change (Level.of op).tightness ≤ (Level.of op').tightness at h
    cases op with
    | logical c =>
      cases op' with
      | logical c' =>
        cases c <;> cases c'
        · rfl
        · exact absurd h (by decide)
        · rfl
        · rfl
      | compare c' => cases c <;> rfl
    | compare c =>
      cases op' with
      | logical c' => cases c <;> cases c' <;> exact absurd h (by decide)
      | compare c' => cases hapart c rfl
  | _ => rfl

/-! ## The nesting that a derivation has -/

/-- No comparison is an operand of a comparison. -/
def ComparisonsApart : Expr → Prop
  | .literal .. => True
  | .reference .. => True
  | .not argument _ _ => argument.ComparisonsApart
  | .binary op left right _ _ =>
    (∀ c, op = .compare c → left.isComparison = false ∧ right.isComparison = false) ∧
      left.ComparisonsApart ∧ right.ComparisonsApart
  | .quantified _ collection predicate _ _ =>
    collection.ComparisonsApart ∧ predicate.ComparisonsApart

theorem depth_withSpan (e : Expr) (span : Option Span) : (e.withSpan span).depth = e.depth := by
  cases e <;> rfl

theorem comparisonsApart_withSpan {e : Expr} {span : Option Span} :
    (e.withSpan span).ComparisonsApart ↔ e.ComparisonsApart := by
  cases e <;> rfl

/-- What a derivation at a layer says of the nesting of canonical text: it is no more than that of
the derivation, and what binds looser than the layer stands in a group. -/
def Bounded (layer : Layer) (n : Nat) (e : Expr) : Prop :=
  e.depth ≤ n ∧ (layer.tightness ≤ e.layer.tightness ∨ e.depth + 1 ≤ n)

theorem Bounded.groupedDepth_le {layer : Layer} {n : Nat} {e : Expr} {group : Bool}
    (h : Bounded layer n e) (hgroup : layer.tightness ≤ e.layer.tightness → group = false) :
    groupedDepth group e.depth ≤ n := by
  obtain ⟨hdepth, htight | hdeep⟩ := h
  · rw [hgroup htight]
    exact hdepth
  · cases group with
    | false => exact hdepth
    | true => exact hdeep

/-- **Canonical text nests no deeper than the text of a derivation** when no comparison is an
operand of a comparison. -/
theorem Reads.depth_le {layer : Layer} {n : Nat} {ts : List Token} {e : Expr}
    (h : Reads layer n ts e) (hapart : e.ComparisonsApart) : Bounded layer n e := by
  induction h with
  | number => exact ⟨Nat.le_refl _, .inl (Nat.le_refl _)⟩
  | string => exact ⟨Nat.le_refl _, .inl (Nat.le_refl _)⟩
  | bool => exact ⟨Nat.le_refl _, .inl (Nat.le_refl _)⟩
  | null => exact ⟨Nat.le_refl _, .inl (Nat.le_refl _)⟩
  | reference => exact ⟨Nat.le_refl _, .inl (Nat.le_refl _)⟩
  | group _ ih =>
    have hdepth := (ih (comparisonsApart_withSpan.1 hapart)).1
    rw [Bounded, depth_withSpan]
    exact ⟨by omega, .inr (by omega)⟩
  | quantified _ _ _ _ ihc ihp =>
    have hcollection := (ihc hapart.1).1
    have hpredicate := (ihp hapart.2).1
    refine ⟨?_, .inl (Nat.le_refl _)⟩
    rw [depth]
    omega
  | @not n ts argument i j _ ih =>
    refine ⟨Nat.succ_le_succ ((ih hapart).groupedDepth_le fun htight => ?_), .inl (Nat.le_refl _)⟩
    cases argument with
    | binary op =>
      change Layer.operand.tightness ≤ (Level.of op).tightness at htight
      have hinner := tightness_inner (Level.of op)
      have hmax := tightness_inner_le (Level.of op)
      omega
    | _ => rfl
  | @single l n ts e _ ih =>
    obtain ⟨hdepth, htight | hdeep⟩ := ih hapart
    · have hinner := tightness_inner l
      exact ⟨hdepth, .inl (Nat.le_trans (by change l.tightness ≤ _; omega) htight)⟩
    · exact ⟨hdepth, .inr hdeep⟩
  | @join l op m n ls rs a b i j _ hop _ ihl ihr =>
    obtain ⟨hcomparisons, ha, hb⟩ := hapart
    subst hop
    have hinner := tightness_inner (Level.of op)
    have hleft : groupedDepth (needsGroup op a) a.depth ≤ m :=
      (ihl ha).groupedDepth_le fun htight =>
        not_needsGroup_of_tightness htight fun c hc => (hcomparisons c hc).1
    have hright : groupedDepth (needsGroup op b) b.depth ≤ n :=
      (ihr hb).groupedDepth_le fun htight =>
        not_needsGroup_of_tightness (by omega) fun c hc => (hcomparisons c hc).2
    refine ⟨?_, .inl (Nat.le_refl _)⟩
    rw [Expr.join, depth]
    omega

end Criteria.Expr
