import Criteria.Logic.Compile
import Criteria.Logic.Import
import Criteria.Proofs.Evaluation.Interpreter
import Criteria.Proofs.Expr.Derivation
import Criteria.Proofs.Expr.Typing

/-!
# Where expressions stand in JSON-Logic

`Logic.Everywhere P` says that a property holds of every expression in a value of JSON-Logic, with
the aliases of the quantifiers in whose predicates it stands and with what it is used for there, its
truth or its value.

An import keeps a path exactly when the path stands outside of predicates, or in the catalog, or is
relative to an alias around it (`Logic.resolvePath_eq_self_iff`); `Logic.Anchored` is that property
of a variable. The JSON-Logic of a condition whose variables all mean something is anchored
(`Expr.anchored_toLogic`).
-/

namespace Criteria

/-! ## Keys -/

/-- The key that asks for an operation. -/
def Operation.key : Operation → String
  | .logical c => c.key
  | .not => "!"
  | .variable => "var"
  | .compare c => c.symbol
  | .quantify q => q.symbol

theorem ofKey?_key : ∀ op : Operation, Operation.ofKey? op.key = some op
  | .logical .and => rfl
  | .logical .or => rfl
  | .not => rfl
  | .variable => rfl
  | .compare c => by cases c <;> rfl
  | .quantify .any => rfl
  | .quantify .all => rfl

/-- A key asks for one operation. -/
theorem ofKey?_eq_some_iff {key : String} {op : Operation} :
    Operation.ofKey? key = some op ↔ key = op.key := by
  refine ⟨fun h => ?_, fun h => h ▸ ofKey?_key op⟩
  unfold Operation.ofKey? at h
  split at h
  · cases h
    assumption
  split at h
  · cases h
    assumption
  split at h
  · cases h
    assumption
  split at h
  · cases h
    assumption
  split at h
  · rename_i q hq
    cases h
    exact (Expr.symbol_of_ofSymbol? hq).symm
  · obtain ⟨c, hc, rfl⟩ := Option.map_eq_some_iff.1 h
    have hsymbol : c.symbol = key := by simpa using List.find?_some hc
    exact hsymbol.symm

theorem key_injective {op op' : Operation} (h : op.key = op'.key) : op = op' :=
  Option.some.inj ((ofKey?_key op).symm.trans (h ▸ ofKey?_key op'))

namespace Logic

/-! ## Uses -/

/-- What an expression is used for where it stands. -/
inductive Use
  /-- Only its truth counts: the whole, an operand of a connective or a negation, a predicate. -/
  | truth
  /-- Its value counts: an operand of a comparison, a collection. -/
  | value

mutual

/-- A property holds of every expression in a value of JSON-Logic, with the aliases around it,
innermost first, and its use. -/
def Everywhere (P : List String → Use → Json → Prop) (aliases : List String)
    (use : Use) : Json → Prop
  | .scalar value => P aliases use (.scalar value)
  | .array items => P aliases use (.array items)
  | .object [(key, operand)] =>
    P aliases use (.object [(key, operand)]) ∧
      match Operation.ofKey? key with
      | some (.logical _) =>
        match operand with
        | .array items => EverywhereItems P aliases .truth items
        | _ => True
      | some .not => Everywhere P aliases .truth operand
      | some (.compare _) =>
        match operand with
        | .array items => EverywhereItems P aliases .value items
        | _ => True
      | some (.quantify _) =>
        match operand with
        | .array (collection :: predicate :: more) =>
          Everywhere P aliases .value collection ∧
            Everywhere P (aliasName more :: aliases) .truth predicate
        | _ => True
      | _ => True
  | .object fields => P aliases use (.object fields)

/-- The property holds everywhere in some expressions that stand in the same place. -/
def EverywhereItems (P : List String → Use → Json → Prop) (aliases : List String)
    (use : Use) : List Json → Prop
  | [] => True
  | item :: rest => Everywhere P aliases use item ∧ EverywhereItems P aliases use rest

end

section Everywhere

variable {P : List String → Use → Json → Prop} {aliases : List String} {use : Use}

theorem everywhereItems_append {xs ys : List Json} :
    EverywhereItems P aliases use (xs ++ ys) ↔
      EverywhereItems P aliases use xs ∧ EverywhereItems P aliases use ys := by
  induction xs with
  | nil => simp [EverywhereItems]
  | cons x xs ih => rw [List.cons_append, EverywhereItems, EverywhereItems, ih, and_assoc]

/-- What holds everywhere in an expression holds of the expression. -/
theorem Everywhere.self : ∀ {value : Json}, Everywhere P aliases use value → P aliases use value
  | .scalar _, h => h
  | .array _, h => h
  | .object [], h => h
  | .object [(_, _)], h => by
    unfold Everywhere at h
    exact h.1
  | .object (_ :: _ :: _), h => h

theorem everywhere_logical {key : String} {c : Connective}
    (hkey : Operation.ofKey? key = some (.logical c)) {items : List Json} :
    Everywhere P aliases use (.object [(key, .array items)]) ↔
      P aliases use (.object [(key, .array items)]) ∧
        EverywhereItems P aliases .truth items := by
  rw [Everywhere, hkey]

theorem everywhere_not {key : String} (hkey : Operation.ofKey? key = some .not) {operand : Json} :
    Everywhere P aliases use (.object [(key, operand)]) ↔
      P aliases use (.object [(key, operand)]) ∧ Everywhere P aliases .truth operand := by
  conv_lhs => unfold Everywhere
  rw [hkey]

theorem everywhere_variable {key : String} (hkey : Operation.ofKey? key = some .variable)
    {operand : Json} :
    Everywhere P aliases use (.object [(key, operand)]) ↔
      P aliases use (.object [(key, operand)]) := by
  unfold Everywhere
  rw [hkey]
  exact and_iff_left trivial

theorem everywhere_compare {key : String} {c : Comparison}
    (hkey : Operation.ofKey? key = some (.compare c)) {left right : Json} :
    Everywhere P aliases use (.object [(key, .array [left, right])]) ↔
      P aliases use (.object [(key, .array [left, right])]) ∧
        Everywhere P aliases .value left ∧ Everywhere P aliases .value right := by
  rw [Everywhere, hkey]
  simp only [EverywhereItems, and_true]

theorem everywhere_quantify {key : String} {q : Quantifier}
    (hkey : Operation.ofKey? key = some (.quantify q)) {collection predicate : Json}
    {more : List Json} :
    Everywhere P aliases use (.object [(key, .array (collection :: predicate :: more))]) ↔
      P aliases use (.object [(key, .array (collection :: predicate :: more))]) ∧
        Everywhere P aliases .value collection ∧
          Everywhere P (aliasName more :: aliases) .truth predicate := by
  rw [Everywhere, hkey]

end Everywhere

/-! ## Paths that an import keeps -/

/-- **An import keeps a path** outside of predicates, when it is in the catalog and when it is
relative to an alias around it, and only then. -/
theorem resolvePath_eq_self_iff {catalog : Catalog} {aliases : List String} {path : String} :
    resolvePath catalog aliases path = path ↔ aliases = [] ∨ catalog.Knows aliases path := by
  unfold resolvePath Catalog.Knows
  split
  · rename_i hcatalog
    exact iff_of_true rfl (.inr (.inr hcatalog))
  rename_i hcatalog
  split
  · rename_i hany
    exact iff_of_true rfl (.inr (.inl (List.any_eq_true.1 hany)))
  rename_i hany
  rw [List.any_eq_true] at hany
  cases aliases with
  | nil => exact iff_of_true rfl (.inl rfl)
  | cons innermost outer =>
    have hunknown : ¬(innermost :: outer = [] ∨
        (∃ name ∈ innermost :: outer, Path.isRelativeTo name path = true) ∨
          catalog.contains path = true) := by
      rintro (hnil | hrelative | hknown)
      · cases hnil
      · exact hany hrelative
      · exact hcatalog hknown
    refine iff_of_false (fun hsame => ?_) hunknown
    -- what is put in front of the path makes it another one
    simp only at hsame
    split at hsame
    · rename_i hempty
      refine hany ⟨innermost, List.mem_cons_self .., Path.isRelativeTo_iff.2 (.inl ?_)⟩
      exact hsame.symm
    · have hlength := congrArg String.length hsame
      simp only [String.length_append] at hlength
      have hpoint : ".".length = 1 := rfl
      omega

/-- Inside of predicates, a variable has a path that means something. -/
def Anchored (catalog : Catalog) (aliases : List String) (_ : Use) (value : Json) : Prop :=
  ∀ path, referencePath? value = some path → aliases = [] ∨ catalog.Knows aliases path

/-- A variable has a path that an import leaves as it is. -/
def KeepsPath (catalog : Catalog) (aliases : List String) (_ : Use) (value : Json) : Prop :=
  ∀ path, referencePath? value = some path → resolvePath catalog aliases path = path

theorem keepsPath_eq_anchored (catalog : Catalog) : KeepsPath catalog = Anchored catalog := by
  funext aliases _ value
  exact propext (forall₂_congr fun _ _ => resolvePath_eq_self_iff)

theorem referencePath?_of_key {key : String} {op : Operation} {operand : Json}
    (hkey : Operation.ofKey? key = some op) (hop : op ≠ .variable) :
    referencePath? (.object [(key, operand)]) = none := by
  rw [referencePath?, if_neg]
  rintro rfl
  exact hop (Option.some.inj hkey).symm

end Logic

/-! ## Compiled conditions -/

namespace Logic

/-- What holds everywhere in an operand holds in the operands that it contributes. -/
theorem everywhere_operands {P : List String → Use → Json → Prop} (c : Connective)
    {aliases : List String} {value : Json} (h : Everywhere P aliases .truth value) :
    EverywhereItems P aliases .truth (c.operands value) := by
  rcases c.operands_cases value with hsingle | hchain
  · rw [hsingle]
    exact ⟨h, trivial⟩
  · rw [hchain] at h
    exact ((everywhere_logical (ofKey?_key (.logical c))).1 h).2

end Logic

namespace Expr

open Logic

/-- **A property holds everywhere in the JSON-Logic of a condition** when it holds of the JSON-Logic
of every node. -/
theorem everywhere_toLogic {P : List String → Use → Json → Prop} {Q : List String → Expr → Prop}
    (hnode : ∀ aliases use e, Q aliases e → P aliases use e.toLogic) {e : Expr}
    (hwell : e.WellFormed) {aliases : List String} (h : e.Everywhere Q aliases) (use : Use) :
    Logic.Everywhere P aliases use e.toLogic := by
  induction e generalizing aliases use with
  | literal => exact hnode aliases use _ h
  | reference => exact (everywhere_variable rfl).2 (hnode aliases use _ h)
  | not a _ _ ih => exact (everywhere_not rfl).2 ⟨hnode aliases use _ h.1, ih hwell h.2 .truth⟩
  | binary op a b _ _ iha ihb =>
    have hwhole := hnode aliases use _ h.1
    cases op with
    | logical c =>
      refine (everywhere_logical (ofKey?_key (.logical c))).2 ⟨hwhole, ?_⟩
      exact everywhereItems_append.2 ⟨everywhere_operands c (iha hwell.1 h.2.1 .truth),
        everywhere_operands c (ihb hwell.2 h.2.2 .truth)⟩
    | compare c =>
      exact (everywhere_compare (ofKey?_key (.compare c))).2
        ⟨hwhole, iha hwell.1 h.2.1 .value, ihb hwell.2 h.2.2 .value⟩
  | quantified q collection predicate binder _ ihc ihp =>
    refine (everywhere_quantify (ofKey?_key (.quantify q))).2
      ⟨hnode aliases use _ h.1, ihc hwell.1 h.2.1 .value, ?_⟩
    rw [Evaluation.aliasName_written (Evaluation.aliasName_of_isName hwell.2.2.1)]
    exact ihp hwell.2.1 h.2.2 .truth

/-- **The JSON-Logic of a condition is anchored** when all its variables mean something. -/
theorem anchored_toLogic {catalog : Catalog} {e : Expr} (hwell : e.WellFormed)
    {aliases : List String} (h : e.Everywhere (Known catalog) aliases) (use : Use) :
    Logic.Everywhere (Anchored catalog) aliases use e.toLogic := by
  refine everywhere_toLogic (fun aliases use e hknown path hpath => .inr ?_) hwell h use
  rw [Evaluation.referencePath?_toLogic] at hpath
  cases e with
  | reference =>
    cases hpath
    exact hknown
  | _ => cases hpath

end Expr

end Criteria
