import Criteria.Expr.Basic
import Criteria.Number.Double
import Criteria.Token.Lexer

/-!
# Conditions that can be written

Not every syntax tree is the tree of a text. `Expr.WellFormed` says which are, node by node: a
number is not negative and within the range of doubles, a variable and an alias are spelled as the
words that the lexer reads for them, and an alias that is not written is the default one. The tree
may have any shape.
-/

namespace Criteria

/-! ## Literals -/

/-- A value that a literal can denote. -/
def Scalar.WellFormed : Scalar → Prop
  | .int n => 0 ≤ n ∧ (Double.ofInt n).isFinite = true
  | .double d => ∃ units, d.units? = some units ∧ 0 ≤ units
  | _ => True

instance (value : Scalar) : Decidable value.WellFormed :=
  match value with
  | .null => .isTrue trivial
  | .bool _ => .isTrue trivial
  | .string _ => .isTrue trivial
  | .int n => inferInstanceAs (Decidable (0 ≤ n ∧ (Double.ofInt n).isFinite = true))
  | .double d =>
    match h : d.units? with
    | none => .isFalse fun ⟨units, hunits, _⟩ => by
      rw [h] at hunits
      cases hunits
    | some units => decidable_of_iff (0 ≤ units)
      ⟨fun hsign => ⟨units, h, hsign⟩, fun ⟨units', hunits, hsign⟩ => by
        rw [h, Option.some.injEq] at hunits
        rw [hunits]
        exact hsign⟩

/-! ## Words -/

/-- A word of the text: a letter or underscore, and then letters, digits, underscores and points. -/
def IsWord (name : String) : Prop :=
  ∃ first rest, name.toList = first :: rest ∧ Lexeme.isNameStart first = true ∧
    ∀ c ∈ rest, Lexeme.isNameChar c = true

theorem isWord_iff {name : String} :
    IsWord name ↔ name.toList.head?.any Lexeme.isNameStart = true ∧
      name.toList.tail.all Lexeme.isNameChar = true := by
  unfold IsWord
  rcases name.toList with _ | ⟨first, rest⟩
  · simp
  · simp only [List.cons.injEq, List.head?_cons, Option.any_some, List.tail_cons, List.all_eq_true]
    constructor
    · rintro ⟨_, _, ⟨rfl, rfl⟩, hfirst, hrest⟩
      exact ⟨hfirst, hrest⟩
    · rintro ⟨hfirst, hrest⟩
      exact ⟨first, rest, ⟨rfl, rfl⟩, hfirst, hrest⟩

instance (name : String) : Decidable (IsWord name) := decidable_of_iff _ isWord_iff.symm

theorem ne_empty_of_isWord {name : String} (h : IsWord name) : name ≠ "" := by
  rintro rfl
  obtain ⟨_, _, hname, -⟩ := h
  cases hname

/-- A word that the lexer reads as a name. -/
def IsName (name : String) : Prop := IsWord name ∧ name ≠ "true" ∧ name ≠ "false"

instance (name : String) : Decidable (IsName name) :=
  inferInstanceAs (Decidable (_ ∧ _ ∧ _))

/-- A path that can be written. -/
def IsVariable (path : String) : Prop := IsName path ∧ path ≠ "null"

instance (path : String) : Decidable (IsVariable path) := inferInstanceAs (Decidable (_ ∧ _))

/-- An alias that can be written, or that need not be. -/
def Alias.WellFormed (binder : Alias) : Prop :=
  IsName binder.name ∧ '.' ∉ binder.name.toList ∧ (binder.written = true ∨ binder.name = defaultAlias)

instance (binder : Alias) : Decidable binder.WellFormed :=
  inferInstanceAs (Decidable (_ ∧ _ ∧ _))

/-! ## Conditions -/

namespace Expr

/-- A condition that can be written: its literals, paths and aliases can. -/
def WellFormed : Expr → Prop
  | .literal value _ => value.WellFormed
  | .reference path _ => IsVariable path
  | .not argument _ _ => argument.WellFormed
  | .binary _ left right _ _ => left.WellFormed ∧ right.WellFormed
  | .quantified _ collection predicate binder _ =>
    collection.WellFormed ∧ predicate.WellFormed ∧ binder.WellFormed

/-- Whether a condition can be written. -/
def decideWellFormed : (e : Expr) → Decidable e.WellFormed
  | .literal value _ => inferInstanceAs (Decidable value.WellFormed)
  | .reference path _ => inferInstanceAs (Decidable (IsVariable path))
  | .not argument _ _ => argument.decideWellFormed
  | .binary _ left right _ _ =>
    have := left.decideWellFormed
    have := right.decideWellFormed
    inferInstanceAs (Decidable (left.WellFormed ∧ right.WellFormed))
  | .quantified _ collection predicate binder _ =>
    have := collection.decideWellFormed
    have := predicate.decideWellFormed
    inferInstanceAs (Decidable
      (collection.WellFormed ∧ predicate.WellFormed ∧ binder.WellFormed))

instance (e : Expr) : Decidable e.WellFormed := e.decideWellFormed

theorem withSpan_wellFormed {e : Expr} {span : Option Span} :
    (e.withSpan span).WellFormed ↔ e.WellFormed := by
  cases e <;> rfl

end Expr

end Criteria
