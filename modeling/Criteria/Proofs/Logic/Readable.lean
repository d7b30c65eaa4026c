import Criteria.Proofs.Expr.Alike
import Criteria.Proofs.Expr.WellFormed
import Criteria.Proofs.Logic.Imports

/-!
# JSON-Logic that conditions are compiled to

`Json.Readable` says of JSON-Logic what `Expr.WellFormed` says of conditions: its values, paths and
aliases can be written. It does not depend on the form of numbers (`Json.readable_iff_of_alike`),
and a condition whose aliases are shown is well-formed exactly when its JSON-Logic is readable
(`Expr.wellFormed_iff_readable`). So conditions with the same JSON-Logic, up to the form of its
numbers, are well-formed together, although a list of operands does not tell how they were joined.
-/

namespace Criteria

namespace Json

/-- The value is an alias that can be written. -/
def ReadableAlias : Json → Prop
  | .string name => IsName name ∧ '.' ∉ name.toList
  | _ => False

mutual

/-- The values, paths and aliases of JSON-Logic can be written. -/
def Readable : Json → Prop
  | .scalar value => value.WellFormed
  | .array _ => False
  | .object [(key, operand)] =>
    match Operation.ofKey? key with
    | none => False
    | some (.logical _) =>
      match operand with
      | .array items => ReadableItems items
      | _ => False
    | some .not => Readable operand
    | some .variable =>
      match operand with
      | .string path => IsVariable path
      | _ => False
    | some (.compare _) =>
      match operand with
      | .array [left, right] => Readable left ∧ Readable right
      | _ => False
    | some (.quantify _) =>
      match operand with
      | .array [collection, predicate] => Readable collection ∧ Readable predicate
      | .array [collection, predicate, third] =>
        Readable collection ∧ Readable predicate ∧ ReadableAlias third
      | _ => False
  | .object _ => False

/-- All items are readable. -/
def ReadableItems : List Json → Prop
  | [] => True
  | item :: rest => Readable item ∧ ReadableItems rest

end

theorem readableItems_append {xs ys : List Json} :
    ReadableItems (xs ++ ys) ↔ ReadableItems xs ∧ ReadableItems ys := by
  induction xs with
  | nil => simp [ReadableItems]
  | cons x xs ih => rw [List.cons_append, ReadableItems, ReadableItems, ih, and_assoc]

theorem readable_logical (c : Connective) (items : List Json) :
    Readable (.object [(c.key, .array items)]) ↔ ReadableItems items := by
  cases c <;> rfl

theorem readable_compare (c : Comparison) (left right : Json) :
    Readable (.object [(c.symbol, .array [left, right])]) ↔ Readable left ∧ Readable right := by
  cases c <;> rfl

theorem readable_quantify (q : Quantifier) (collection predicate : Json) :
    Readable (.object [(q.symbol, .array [collection, predicate])]) ↔
      Readable collection ∧ Readable predicate := by
  cases q <;> rfl

theorem readable_quantify_named (q : Quantifier) (collection predicate : Json) (name : String) :
    Readable (.object [(q.symbol, .array [collection, predicate, .string name])]) ↔
      Readable collection ∧ Readable predicate ∧ IsName name ∧ '.' ∉ name.toList := by
  cases q <;> rfl

/-! ## The form of numbers -/

theorem wellFormed_exact (v : Scalar) : v.exact.WellFormed ↔ v.WellFormed := by
  cases v with
  | double d =>
    cases hint : d.toInt? with
    | none => rw [Scalar.exact_of_not_int hint]
    | some n =>
      rw [Scalar.exact_of_toInt hint]
      constructor
      · rintro ⟨hn, -⟩
        rw [← Double.eqInt_iff, Double.eqInt, beq_iff_eq] at hint
        exact ⟨_, hint, Int.mul_nonneg hn (Int.natCast_nonneg _)⟩
      · rintro ⟨u, hu, hnonneg⟩
        exact ⟨Double.toInt_nonneg hint hu hnonneg, Double.isFinite_ofInt_of_toInt hint⟩
  | _ => rfl

theorem readableAlias_exact (value : Json) : value.exact.ReadableAlias ↔ value.ReadableAlias := by
  match value with
  | .double d =>
    rcases Scalar.exact_double d with ⟨n, hd⟩ | hd <;> simp only [exact, hd, ReadableAlias]
  | .null => rfl
  | .bool _ => rfl
  | .int _ => rfl
  | .string _ => rfl
  | .array _ => rfl
  | .object _ => rfl

mutual

theorem readable_exact : ∀ value : Json, value.exact.Readable ↔ value.Readable
  | .scalar value => wellFormed_exact value
  | .array _ => Iff.rfl
  | .object [] => Iff.rfl
  | .object [(key, operand)] => by
    rw [exact, exactFields, exactFields]
    unfold Readable
    match Operation.ofKey? key with
    | none => rfl
    | some (.logical _) =>
      match operand with
      | .scalar _ => rfl
      | .array items => exact readableItems_exact items
      | .object _ => rfl
    | some .not => exact readable_exact operand
    | some .variable =>
      match operand with
      | .null => rfl
      | .bool _ => rfl
      | .int _ => rfl
      | .double d =>
        rcases Scalar.exact_double d with ⟨n, hd⟩ | hd <;> simp only [exact, hd]
      | .string _ => rfl
      | .array _ => rfl
      | .object _ => rfl
    | some (.compare _) =>
      match operand with
      | .scalar _ => rfl
      | .array [] => rfl
      | .array [_] => rfl
      | .array [left, right] => exact and_congr (readable_exact left) (readable_exact right)
      | .array (_ :: _ :: _ :: _) => rfl
      | .object _ => rfl
    | some (.quantify _) =>
      match operand with
      | .scalar _ => rfl
      | .array [] => rfl
      | .array [_] => rfl
      | .array [collection, predicate] =>
        exact and_congr (readable_exact collection) (readable_exact predicate)
      | .array [collection, predicate, third] =>
        exact and_congr (readable_exact collection)
          (and_congr (readable_exact predicate) (readableAlias_exact third))
      | .array (_ :: _ :: _ :: _ :: _) => rfl
      | .object _ => rfl
  | .object ((_, _) :: (_, _) :: _) => Iff.rfl

theorem readableItems_exact : ∀ items : List Json,
    ReadableItems (exactItems items) ↔ ReadableItems items
  | [] => Iff.rfl
  | item :: rest => and_congr (readable_exact item) (readableItems_exact rest)

end

/-- **Being readable does not depend on the form of numbers.** -/
theorem readable_iff_of_alike {value value' : Json} (h : value.Alike value') :
    value.Readable ↔ value'.Readable := by
  rw [← readable_exact value, ← readable_exact value', show value.exact = value'.exact from h]

/-- The operands that an operand contributes to a connective are readable when it is. -/
theorem readableItems_operands (c : Connective) (value : Json) :
    ReadableItems (c.operands value) ↔ value.Readable := by
  rcases c.operands_cases value with hsingle | hchain
  · rw [hsingle, ReadableItems, ReadableItems, and_true]
  · conv_rhs => rw [hchain]
    rw [readable_logical]

end Json

/-! ## Conditions -/

namespace Expr

/-- The alias of a quantifier is readable when it can be written. -/
theorem readable_quantified (q : Quantifier) (collection predicate : Json) (binder : Alias) :
    Json.Readable (.object [(q.symbol, .array (collection :: predicate ::
        if binder.written || binder.name != defaultAlias then [.string binder.name] else []))]) ↔
      collection.Readable ∧ predicate.Readable ∧ IsName binder.name ∧
        '.' ∉ binder.name.toList := by
  split
  · exact Json.readable_quantify_named q collection predicate binder.name
  · rename_i hunwritten
    rw [Bool.or_eq_true, not_or, bne_iff_ne, not_not] at hunwritten
    rw [Json.readable_quantify, hunwritten.2]
    have hdefault : IsName defaultAlias ∧ '.' ∉ defaultAlias.toList := by decide
    simp only [hdefault, not_false_eq_true, and_true]

/-- **A condition is well-formed when its JSON-Logic is readable and its aliases are shown.** -/
theorem wellFormed_iff_readable (e : Expr) :
    e.WellFormed ↔ e.toLogic.Readable ∧ e.AliasesShown := by
  induction e with
  | literal => exact (and_iff_left trivial).symm
  | reference => exact (and_iff_left trivial).symm
  | not argument _ _ ih => exact ih
  | binary op left right s t ihl ihr =>
    have hlogic : (Expr.binary op left right s t).toLogic.Readable ↔
        left.toLogic.Readable ∧ right.toLogic.Readable := by
      cases op with
      | logical c =>
        rw [toLogic, Json.readable_logical, Json.readableItems_append,
          Json.readableItems_operands, Json.readableItems_operands]
      | compare c => exact Json.readable_compare c left.toLogic right.toLogic
    rw [hlogic, WellFormed, AliasesShown, ihl, ihr, and_and_and_comm]
  | quantified q collection predicate binder _ ihc ihp =>
    rw [toLogic, readable_quantified, WellFormed, AliasesShown, ihc, ihp, Alias.WellFormed]
    constructor
    · rintro ⟨⟨hc, hcs⟩, ⟨hp, hps⟩, hname, hdot, hshown⟩
      exact ⟨⟨hc, hp, hname, hdot⟩, hcs, hps, hshown⟩
    · rintro ⟨⟨hc, hp, hname, hdot⟩, hcs, hps, hshown⟩
      exact ⟨⟨hc, hcs⟩, ⟨hp, hps⟩, hname, hdot, hshown⟩

end Expr

end Criteria
