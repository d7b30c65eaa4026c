import Criteria.Logic.Import
import Criteria.Proofs.Except

/-!
# Imported conditions

`Expr.Imports catalog aliases value e` derives the condition `e` from the JSON-Logic `value` inside
quantifiers with the given aliases, one rule for each operation. Whatever `Expr.ofLogic` returns is
derived (`Expr.imports_of_ofLogic`), so that facts about imported conditions are proved by induction
on the derivation. The first of them is that an imported alias is written out whenever it is not the
default one (`Expr.Imports.aliasesShown`).
-/

namespace Criteria

/-- An alias keeps its name when it is given again. -/
theorem Logic.aliasName_aliasName (more : List Json) :
    aliasName [.string (aliasName more)] = aliasName more := by
  cases hgiven : givenAlias? more with
  | none =>
    have hname : aliasName more = defaultAlias := by rw [aliasName, hgiven]; rfl
    rw [hname]
    rfl
  | some name =>
    have hname : aliasName more = name := by rw [aliasName, hgiven]; rfl
    rw [hname]
    unfold givenAlias? at hgiven
    split at hgiven
    · split at hgiven
      · cases hgiven
      · cases hgiven
        rename_i hblank
        rw [aliasName, givenAlias?, if_neg hblank]
        rfl
    · cases hgiven

namespace Expr

mutual

/-- The condition that a value of JSON-Logic is imported as. -/
inductive Imports (catalog : Catalog) : List String → Json → Expr → Prop
  | literal {aliases : List String} {value : Scalar} :
      Imports catalog aliases (.scalar value) (.literal value none)
  | logical {aliases : List String} {key : String} {c : Connective} {first : Json}
      {rest : List Json} {e : Expr} {es : List Expr}
      (hkey : Operation.ofKey? key = some (.logical c)) (hfirst : Imports catalog aliases first e)
      (hrest : ImportsAll catalog aliases rest es) :
      Imports catalog aliases (.object [(key, .array (first :: rest))]) (joinAll c e es)
  | not {aliases : List String} {key : String} {operand : Json} {e : Expr}
      (hkey : Operation.ofKey? key = some .not) (h : Imports catalog aliases operand e) :
      Imports catalog aliases (.object [(key, operand)]) (.not e none none)
  | variable {aliases : List String} {key path : String} {operand : Json}
      (hkey : Operation.ofKey? key = some .variable)
      (hpath : Logic.variablePath? operand = some path) :
      Imports catalog aliases (.object [(key, operand)])
        (.reference (Logic.resolvePath catalog aliases path) none)
  | compare {aliases : List String} {key : String} {c : Comparison} {left right : Json} {l r : Expr}
      (hkey : Operation.ofKey? key = some (.compare c)) (hl : Imports catalog aliases left l)
      (hr : Imports catalog aliases right r) :
      Imports catalog aliases (.object [(key, .array [left, right])])
        (.binary (.compare c) l r none none)
  | quantify {aliases : List String} {key : String} {q : Quantifier} {collection predicate : Json}
      {c p : Expr} (hkey : Operation.ofKey? key = some (.quantify q))
      (hc : Imports catalog aliases collection c)
      (hp : Imports catalog (defaultAlias :: aliases) predicate p) :
      Imports catalog aliases (.object [(key, .array [collection, predicate])])
        (.quantified q c p ⟨defaultAlias, false⟩ {})
  | quantifyNamed {aliases : List String} {key : String} {q : Quantifier}
      {collection predicate third : Json} {c p : Expr}
      (hkey : Operation.ofKey? key = some (.quantify q))
      (hc : Imports catalog aliases collection c)
      (hp : Imports catalog (Logic.aliasName [third] :: aliases) predicate p) :
      Imports catalog aliases (.object [(key, .array [collection, predicate, third])])
        (.quantified q c p
          ⟨Logic.aliasName [third], Logic.aliasName [third] != defaultAlias⟩ {})

/-- The conditions that operands are imported as, one by one. -/
inductive ImportsAll (catalog : Catalog) : List String → List Json → List Expr → Prop
  | nil {aliases : List String} : ImportsAll catalog aliases [] []
  | cons {aliases : List String} {first : Json} {rest : List Json} {e : Expr} {es : List Expr}
      (hfirst : Imports catalog aliases first e) (hrest : ImportsAll catalog aliases rest es) :
      ImportsAll catalog aliases (first :: rest) (e :: es)

end

variable {catalog : Catalog}

mutual

/-- **What the import returns is derived.** -/
theorem imports_of_ofLogic : ∀ (value : Json) {aliases : List String} {e : Expr},
    ofLogic catalog aliases value = .ok e → Imports catalog aliases value e
  | .scalar _, _, _, h => by
    cases h
    exact .literal
  | .array _, _, _, h => by cases h
  | .object [], _, _, h => by cases h
  | .object [(key, operand)], aliases, e, h => by
    unfold ofLogic at h
    match hkey : Operation.ofKey? key with
    | none =>
      rw [hkey] at h
      cases h
    | some (.logical c) =>
      rw [hkey] at h
      match operand with
      | .array (first :: rest) =>
        obtain ⟨f, hf, h⟩ := bind_ok h
        obtain ⟨fs, hfs, h⟩ := bind_ok h
        cases h
        exact .logical hkey (imports_of_ofLogic first hf) (importsAll_of_ofLogicList rest hfs)
      | .array [] => cases h
      | .scalar _ => cases h
      | .object _ => cases h
    | some .not =>
      rw [hkey] at h
      obtain ⟨argument, hargument, h⟩ := bind_ok h
      cases h
      exact .not hkey (imports_of_ofLogic operand hargument)
    | some .variable =>
      rw [hkey] at h
      simp only at h
      split at h
      · rename_i path hpath
        cases h
        exact .variable hkey hpath
      · cases h
    | some (.compare c) =>
      rw [hkey] at h
      match operand with
      | .array [left, right] =>
        obtain ⟨l, hl, h⟩ := bind_ok h
        obtain ⟨r, hr, h⟩ := bind_ok h
        cases h
        exact .compare hkey (imports_of_ofLogic left hl) (imports_of_ofLogic right hr)
      | .array [] => cases h
      | .array [_] => cases h
      | .array (_ :: _ :: _ :: _) => cases h
      | .scalar _ => cases h
      | .object _ => cases h
    | some (.quantify q) =>
      rw [hkey] at h
      match operand with
      | .array [collection, predicate] =>
        obtain ⟨c, hc, h⟩ := bind_ok h
        obtain ⟨p, hp, h⟩ := bind_ok h
        cases h
        exact .quantify hkey (imports_of_ofLogic collection hc) (imports_of_ofLogic predicate hp)
      | .array [collection, predicate, third] =>
        obtain ⟨c, hc, h⟩ := bind_ok h
        obtain ⟨p, hp, h⟩ := bind_ok h
        cases h
        exact .quantifyNamed hkey (imports_of_ofLogic collection hc)
          (imports_of_ofLogic predicate hp)
      | .array [] => cases h
      | .array [_] => cases h
      | .array (_ :: _ :: _ :: _ :: _) => cases h
      | .scalar _ => cases h
      | .object _ => cases h
  | .object ((_, _) :: (_, _) :: _), _, _, h => by cases h

theorem importsAll_of_ofLogicList : ∀ (items : List Json) {aliases : List String}
    {es : List Expr}, ofLogicList catalog aliases items = .ok es →
      ImportsAll catalog aliases items es
  | [], _, _, h => by
    cases h
    exact .nil
  | item :: rest, aliases, es, h => by
    obtain ⟨f, hf, h⟩ := bind_ok h
    obtain ⟨fs, hfs, h⟩ := bind_ok h
    cases h
    exact .cons (imports_of_ofLogic item hf) (importsAll_of_ofLogicList rest hfs)

end

/-! ## Aliases -/

/-- Every alias is written out or the default one. -/
def AliasesShown : Expr → Prop
  | .literal .. => True
  | .reference .. => True
  | .not argument _ _ => argument.AliasesShown
  | .binary _ left right _ _ => left.AliasesShown ∧ right.AliasesShown
  | .quantified _ collection predicate binder _ =>
    collection.AliasesShown ∧ predicate.AliasesShown ∧
      (binder.written = true ∨ binder.name = defaultAlias)

theorem aliasesShown_joinAll {c : Connective} {first : Expr} {rest : List Expr}
    (hfirst : first.AliasesShown) (hrest : ∀ e ∈ rest, e.AliasesShown) :
    (joinAll c first rest).AliasesShown := by
  unfold joinAll
  induction rest generalizing first with
  | nil => exact hfirst
  | cons e rest ih =>
    exact ih ⟨hfirst, hrest e (List.mem_cons_self ..)⟩ fun f hf =>
      hrest f (List.mem_cons_of_mem e hf)

theorem aliasShown (name : String) :
    (name != defaultAlias) = true ∨ name = defaultAlias := by
  rw [bne_iff_ne]
  exact (Decidable.em (name = defaultAlias)).symm

mutual

/-- **An imported condition shows its aliases.** -/
theorem Imports.aliasesShown : ∀ {aliases : List String} {value : Json} {e : Expr},
    Imports catalog aliases value e → e.AliasesShown
  | _, _, _, .literal => trivial
  | _, _, _, .logical _ hfirst hrest => aliasesShown_joinAll hfirst.aliasesShown hrest.aliasesShown
  | _, _, _, .not _ h => h.aliasesShown
  | _, _, _, .variable _ _ => trivial
  | _, _, _, .compare _ hl hr => ⟨hl.aliasesShown, hr.aliasesShown⟩
  | _, _, _, .quantify _ hc hp => ⟨hc.aliasesShown, hp.aliasesShown, .inr rfl⟩
  | _, _, _, .quantifyNamed _ hc hp => ⟨hc.aliasesShown, hp.aliasesShown, aliasShown _⟩

theorem ImportsAll.aliasesShown : ∀ {aliases : List String} {items : List Json} {es : List Expr},
    ImportsAll catalog aliases items es → ∀ e ∈ es, e.AliasesShown
  | _, _, _, .nil, _, he => by cases he
  | _, _, _, .cons hfirst hrest, e, he => by
    rcases List.mem_cons.1 he with rfl | he
    · exact hfirst.aliasesShown
    · exact hrest.aliasesShown e he

end

end Expr

end Criteria
