import Mathlib.Data.List.Forall2
import Criteria.Proofs.Evaluation.Scopes

/-!
# Values that look alike

`Value.Twin β v w` relates two values with the same parts, up to the order in which objects list
their entries; where two arrays or objects correspond, their places are related by `β`. With the
trivial `β` they have the same content (`Value.Same`). When places correspond one to one
(`OneToOne β`), an evaluation cannot tell twins apart: they count as the same
(`Value.Twin.strictEq`), compare alike, list related elements and are read alike.
-/

namespace Criteria

open Evaluation

/-- A relation under which each side determines the other. -/
def OneToOne {α β : Type} (r : α → β → Prop) : Prop :=
  ∀ a b a' b', r a b → r a' b' → (a = a' ↔ b = b')

/-- Two values with the same parts, at related places. -/
inductive Value.Twin (β : Mark → Mark → Prop) : Value → Value → Prop
  | missing : Twin β .missing .missing
  | scalar (value : Scalar) : Twin β (.scalar value) (.scalar value)
  | array {m n : Mark} {items items' : List Value} (hmark : β m n)
    (hlength : items.length = items'.length)
    (hitems : ∀ (i : Nat) (v w : Value), items[i]? = some v → items'[i]? = some w → Twin β v w) :
    Twin β (.array m items) (.array n items')
  | object {m n : Mark} {fields fields' : List (String × Value)} (hmark : β m n)
    (hnames : ∀ name, (fields.lookup name).isSome = (fields'.lookup name).isSome)
    (hentries : ∀ (name : String) (v w : Value), fields.lookup name = some v →
      fields'.lookup name = some w → Twin β v w) :
    Twin β (.object m fields) (.object n fields')

/-- Two values have the same content, wherever they live. -/
def Value.Same : Value → Value → Prop := Value.Twin fun _ _ => True

namespace Value.Twin

variable {β : Mark → Mark → Prop} {v w v' w' : Value}

theorem same (h : Twin β v w) : v.Same w := by
  induction h with
  | missing => exact .missing
  | scalar value => exact .scalar value
  | array _ hlength _ ih => exact .array trivial hlength ih
  | object _ hnames _ ih => exact .object trivial hnames ih

theorem array_of_forall₂ {m n : Mark} {items items' : List Value} (hmark : β m n)
    (h : List.Forall₂ (Twin β) items items') : Twin β (.array m items) (.array n items') := by
  refine .array hmark h.length_eq fun i x y hx hy => ?_
  obtain ⟨hi, rfl⟩ := List.getElem?_eq_some_iff.1 hx
  obtain ⟨hj, rfl⟩ := List.getElem?_eq_some_iff.1 hy
  exact List.forall₂_iff_get.1 h |>.2 i hi hj

/-! ## What a value counts as -/

theorem truthy (h : Twin β v w) : v.truthy = w.truthy := by
  cases h <;> rfl

theorem kind (h : Twin β v w) : v.kind = w.kind := by
  cases h <;> rfl

theorem strictEq (hβ : OneToOne β) (h : Twin β v w) (h' : Twin β v' w') :
    v.strictEq v' = w.strictEq w' := by
  cases h with
  | missing => cases h' <;> rfl
  | scalar => cases h' <;> rfl
  | array hmark =>
    cases h' with
    | array hmark' =>
      exact Bool.eq_iff_iff.2 (by simpa [Value.strictEq] using hβ _ _ _ _ hmark hmark')
    | _ => rfl
  | object hmark =>
    cases h' with
    | object hmark' =>
      exact Bool.eq_iff_iff.2 (by simpa [Value.strictEq] using hβ _ _ _ _ hmark hmark')
    | _ => rfl

theorem toNumber (h : Twin β v w) : v.toNumber = w.toNumber := by
  cases h with
  | missing => rfl
  | scalar => rfl
  | @array _ _ items items' _ hlength hitems =>
    match items, items' with
    | [], [] => rfl
    | [x], [y] =>
      have hitem := hitems 0 x y rfl rfl
      cases hitem <;> rfl
    | _ :: _ :: _, _ :: _ :: _ => simp [Value.toNumber]
    | [], _ :: _ => simp at hlength
    | _ :: _, [] => simp at hlength
    | [_], _ :: _ :: _ => simp at hlength
    | _ :: _ :: _, [_] => simp at hlength
  | object => rfl

theorem compareValues (hβ : OneToOne β) (c : Comparison) (h : Twin β v w) (h' : Twin β v' w') :
    compareValues c v v' = compareValues c w w' := by
  cases c <;>
    simp only [Evaluation.compareValues, Evaluation.compareValues.ordered, h.strictEq hβ h',
      h.toNumber, h'.toNumber]

theorem forall₂_items {m n : Mark} {items items' : List Value}
    (h : Twin β (.array m items) (.array n items')) : List.Forall₂ (Twin β) items items' := by
  cases h with
  | array _ hlength hitems =>
    refine List.forall₂_iff_get.2 ⟨hlength, fun i hi hj => ?_⟩
    exact hitems i _ _ (List.getElem?_eq_getElem hi) (List.getElem?_eq_getElem hj)

/-- A quantifier ranges over related elements. -/
theorem elements {q : Quantifier} {path : Option String} {items : List Value} (h : Twin β v w)
    (hitems : elements q path v = .ok items) :
    ∃ items', elements q path w = .ok items' ∧ List.Forall₂ (Twin β) items items' := by
  cases h with
  | missing =>
    cases hitems
    exact ⟨[], rfl, .nil⟩
  | scalar value =>
    refine ⟨items, hitems, ?_⟩
    cases value with
    | null =>
      cases hitems
      exact .nil
    | _ => cases hitems
  | array hmark hlength hrelated =>
    cases hitems
    exact ⟨_, rfl, forall₂_items (.array hmark hlength hrelated)⟩
  | object => cases hitems

/-! ## Reading -/

theorem rel_of_isSome {found found' : Option Value} (hsome : found.isSome = found'.isSome)
    (h : ∀ v w, found = some v → found' = some w → Twin β v w) :
    Option.Rel (Twin β) found found' := by
  match found, found' with
  | none, none => exact .none
  | some v, some w => exact .some (h v w rfl rfl)
  | none, some _ => cases hsome
  | some _, none => cases hsome

theorem part? (h : Twin β v w) (segment : String) :
    Paired Eq (Option.Rel (Twin β)) (v.part? segment) (w.part? segment) := by
  cases h with
  | missing => exact .ok .none
  | scalar => exact .ok .none
  | @array _ _ items items' _ hlength hitems =>
    simp only [Value.part?]
    split
    · split
      · exact .error rfl
      · refine .ok (rel_of_isSome ?_ (hitems _))
        rw [Bool.eq_iff_iff]
        simp [hlength]
    · exact .ok .none
  | object _ hnames hentries => exact .ok (rel_of_isSome (hnames segment) (hentries segment))

theorem follow (h : Twin β v w) (segments : List String) :
    Paired Eq (Option.Rel (Twin β)) (v.follow segments) (w.follow segments) := by
  induction segments generalizing v w with
  | nil => exact .ok (.some h)
  | cons segment rest ih =>
    refine .bind (h.part? segment) fun found found' hfound => ?_
    cases hfound with
    | none => exact .ok .none
    | some hnext => exact ih hnext

/-- Twins are read alike. -/
theorem read (h : Twin β v w) (path : String) :
    Paired Eq (Option.Rel (Twin β)) (v.read path) (w.read path) := by
  unfold Value.read
  split
  · exact .ok (.some h)
  · exact h.follow _

end Value.Twin

/-! ## Elements around an expression -/

/-- Two elements of one name that are twins. -/
structure Frame.Twin (β : Mark → Mark → Prop) (frame frame' : Frame) : Prop where
  name : frame.name = frame'.name
  value : frame.value.Twin β frame'.value

variable {β : Mark → Mark → Prop}

theorem Frame.Twin.resolve {frame frame' : Frame} (h : Frame.Twin β frame frame') (path : String) :
    Paired Eq (Option.Rel (Value.Twin β)) (frame.resolve path) (frame'.resolve path) := by
  unfold Frame.resolve
  rw [← h.name]
  split
  · split
    · split
      · exact .ok (.some h.value)
      · split
        · refine .bind (h.value.read _) fun found found' hfound => ?_
          cases hfound with
          | none => exact h.value.read path
          | some hvalue => exact .ok (.some hvalue)
        · exact h.value.read path
    · exact h.value.read path
  · exact h.value.read path

/-- **A path means the same among twins.** -/
theorem Scope.resolve_twin {scope scope' : Scope} (h : List.Forall₂ (Frame.Twin β) scope scope')
    (path : String) :
    Paired Eq (Option.Rel (Value.Twin β)) (scope.resolve path) (scope'.resolve path) := by
  induction h with
  | nil => exact .ok .none
  | cons hframe _ ih =>
    refine .bind (hframe.resolve path) fun found found' hfound => ?_
    cases hfound with
    | none => exact ih
    | some hvalue => exact .ok (.some hvalue)

end Criteria
