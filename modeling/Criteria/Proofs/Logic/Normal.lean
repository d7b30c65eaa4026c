import Criteria.Proofs.Expr.Renaming
import Criteria.Proofs.Expr.Sites
import Criteria.Proofs.Logic.Reimport

/-!
# Importing is normalizing

An import folds lists of operands, leaves blank and default aliases out and rewrites paths, all of
it at once: what an imported condition is compiled to is imported and compiled to itself
(`Expr.ofLogic_normal`). Every node of an imported condition is one that an import keeps
(`Expr.Imports.asImported`). In particular every variable inside a predicate means something
there, so that only variables outside of all predicates can be unknown.
-/

namespace Criteria

/-! ## Rewritten paths -/

namespace Logic

variable {catalog : Catalog} {aliases : List String}

/-- Inside of predicates, a rewritten path means something. -/
theorem knows_resolvePath (h : aliases ≠ []) (path : String) :
    catalog.Knows aliases (resolvePath catalog aliases path) := by
  unfold resolvePath
  split
  · exact .inr ‹_›
  split
  · exact .inl (List.any_eq_true.1 ‹_›)
  cases aliases with
  | nil => exact absurd rfl h
  | cons innermost outer =>
    refine .inl ⟨innermost, List.mem_cons_self .., Path.isRelativeTo_iff.2 ?_⟩
    simp only
    split
    · exact .inl rfl
    · exact .inr ⟨path.toList, by simp⟩

/-- A path is rewritten once. -/
theorem resolvePath_resolvePath (path : String) :
    resolvePath catalog aliases (resolvePath catalog aliases path) =
      resolvePath catalog aliases path := by
  refine resolvePath_eq_self_iff.2 ?_
  by_cases h : aliases = []
  · exact .inl h
  · exact .inr (knows_resolvePath h path)

end Logic

namespace Expr

variable {catalog : Catalog} {aliases : List String}

/-! ## The nodes of imported conditions -/

/-- A node as an import gives it: it would rewrite the path no further, and it writes an alias out
unless it is the default one. -/
def AsImported (catalog : Catalog) (aliases : List String) : Expr → Prop
  | .reference path _ => Logic.resolvePath catalog aliases path = path
  | .quantified _ _ _ binder _ =>
    Logic.aliasName [.string binder.name] = binder.name ∧
      binder.written = (binder.name != defaultAlias)
  | _ => True

theorem everywhere_joinAll {P : List String → Expr → Prop} {c : Connective}
    (hjoin : ∀ left right, P aliases (.binary (.logical c) left right none none)) {first : Expr}
    {rest : List Expr} (hfirst : first.Everywhere P aliases)
    (hrest : ∀ e ∈ rest, e.Everywhere P aliases) : (joinAll c first rest).Everywhere P aliases := by
  unfold joinAll
  induction rest generalizing first with
  | nil => exact hfirst
  | cons e rest ih =>
    exact ih ⟨hjoin first e, hfirst, hrest e (List.mem_cons_self ..)⟩ fun f hf =>
      hrest f (List.mem_cons_of_mem e hf)

mutual

/-- **Every node of an imported condition is as an import gives it.** -/
theorem Imports.asImported : ∀ {aliases : List String} {value : Json} {e : Expr},
    Imports catalog aliases value e → e.Everywhere (AsImported catalog) aliases
  | _, _, _, .literal => trivial
  | _, _, _, .logical _ hfirst hrest =>
    everywhere_joinAll (fun _ _ => trivial) hfirst.asImported hrest.asImported
  | _, _, _, .not _ h => ⟨trivial, h.asImported⟩
  | _, _, _, .variable _ _ => Logic.resolvePath_resolvePath _
  | _, _, _, .compare _ hl hr => ⟨trivial, hl.asImported, hr.asImported⟩
  | _, _, _, .quantify _ hc hp => ⟨⟨rfl, rfl⟩, hc.asImported, hp.asImported⟩
  | _, _, _, .quantifyNamed _ hc hp =>
    ⟨⟨Logic.aliasName_aliasName _, rfl⟩, hc.asImported, hp.asImported⟩

theorem ImportsAll.asImported : ∀ {aliases : List String} {items : List Json} {es : List Expr},
    ImportsAll catalog aliases items es → ∀ e ∈ es, e.Everywhere (AsImported catalog) aliases
  | _, _, _, .nil, _, he => by cases he
  | _, _, _, .cons hfirst hrest, e, he => by
    rcases List.mem_cons.1 he with rfl | he
    · exact hfirst.asImported
    · exact hrest.asImported e he

end

/-- An import keeps the nodes that it gives. -/
theorem AsImported.kept {e : Expr} (h : e.AsImported catalog aliases) :
    e.Kept catalog aliases := by
  cases e with
  | reference => exact h
  | quantified => exact ⟨h.1, h.2 ▸ aliasShown _⟩
  | _ => trivial

/-- Nothing is hidden of the aliases that an import gives. -/
theorem hideDefault_of_asImported {e : Expr} (h : e.Everywhere (AsImported catalog) aliases) :
    e.hideDefault = e := by
  induction e generalizing aliases with
  | literal => rfl
  | reference => rfl
  | not _ _ _ ih => rw [hideDefault, ih h.2]
  | binary _ _ _ _ _ iha ihb => rw [hideDefault, iha h.2.1, ihb h.2.2]
  | quantified _ _ _ binder _ ihc ihp =>
    have hbinder : binder.hideDefault = binder := by
      rw [Alias.hideDefault, ← h.1.2, Bool.and_self]
    rw [hideDefault, ihc h.2.1, ihp h.2.2, hbinder]

/-! ## Heights -/

open Json in
theorem heightItems_operands_le (c : Connective) (value : Json) :
    heightItems (c.operands value) ≤ value.height := by
  rcases c.operands_cases value with hsingle | hchain
  · rw [hsingle, heightItems, heightItems, Nat.max_zero]
  · conv_rhs => rw [hchain]
    simp only [Json.height, heightFields]
    omega

open Json in
theorem heightItems_flatMap_le {f : Expr → List Json} {bound : Nat} {es : List Expr}
    (h : ∀ e ∈ es, heightItems (f e) ≤ bound) : heightItems (es.flatMap f) ≤ bound := by
  induction es with
  | nil => exact Nat.zero_le _
  | cons e rest ih =>
    obtain ⟨hfirst, hrest⟩ := List.forall_mem_cons.1 h
    rw [List.flatMap_cons, heightItems_append]
    exact Nat.max_le.2 ⟨hfirst, ih hrest⟩

mutual

/-- **What an imported condition is compiled to is nested no deeper** than what it is imported
from. -/
theorem Imports.height_le : ∀ {aliases : List String} {value : Json} {e : Expr},
    Imports catalog aliases value e → e.toLogic.height ≤ value.height
  | _, _, _, .literal => Nat.le_refl _
  | _, _, _, .logical _ hfirst .nil => by
    have hoperand := hfirst.height_le
    simp only [joinAll, List.foldl_nil, Json.height, Json.heightFields, Json.heightItems]
    omega
  | _, _, _, .logical (c := c) _ hfirst (.cons hsecond hrest) => by
    have hoperands := heightItems_flatMap_le fun e he =>
      (heightItems_operands_le c e.toLogic).trans
        ((ImportsAll.cons hfirst (.cons hsecond hrest)).height_le e he)
    rw [toLogic_joinAll]
    simp only [Json.height, Json.heightFields]
    omega
  | _, _, _, .not _ h => by
    have hargument := h.height_le
    simp only [toLogic, Json.height, Json.heightFields]
    omega
  | _, _, _, .variable _ _ => by
    simp only [toLogic, Json.height, Json.heightFields]
    omega
  | _, _, _, .compare _ hl hr => by
    have hleft := hl.height_le
    have hright := hr.height_le
    simp only [toLogic, Json.height, Json.heightFields, Json.heightItems]
    omega
  | _, _, _, .quantify _ hc hp => by
    have hcollection := hc.height_le
    have hpredicate := hp.height_le
    simp only [toLogic, Json.height, Json.heightFields, Json.heightItems, Json.heightItems_alias]
    omega
  | _, _, _, .quantifyNamed _ hc hp => by
    have hcollection := hc.height_le
    have hpredicate := hp.height_le
    simp only [toLogic, Json.height, Json.heightFields, Json.heightItems, Json.heightItems_alias]
    omega

theorem ImportsAll.height_le : ∀ {aliases : List String} {items : List Json} {es : List Expr},
    ImportsAll catalog aliases items es → ∀ e ∈ es, e.toLogic.height ≤ Json.heightItems items
  | _, _, _, .nil, _, he => by cases he
  | _, _, _, .cons hfirst hrest, e, he => by
    rcases List.mem_cons.1 he with rfl | he
    · exact hfirst.height_le.trans (Nat.le_max_left ..)
    · exact (hrest.height_le e he).trans (Nat.le_max_right ..)

end

/-! ## Normal forms -/

/-- **Importing gives a normal form.** What an imported condition is compiled to is imported again,
inside the same quantifiers, and compiled to itself. Every variable in a predicate means something
there; the unknown variables are those outside of all predicates that mean nothing. Where the given
aliases are not taken into account, a variable that is relative to one of them is unknown, too. -/
theorem ofLogic_normal {logic : Json} {e : Expr} (h : ofLogic catalog aliases logic = .ok e) :
    (∃ a, ofLogic catalog aliases e.toLogic = .ok a ∧ a.toLogic = e.toLogic) ∧
      (∀ site ∈ e.sites [], site.aliases ≠ [] →
        catalog.Knows (site.aliases ++ aliases) site.path) ∧
      unknown (checkUnder catalog aliases e).findings =
        ((e.sites []).filter fun site =>
          site.aliases = [] ∧ ¬catalog.Knows aliases site.path).map Site.unknown ∧
      unknown (e.check catalog) =
        ((e.sites []).filter fun site =>
          (site.aliases = [] ∨ ∃ name ∈ aliases, Path.isRelativeTo name site.path = true) ∧
            ¬catalog.Knows site.aliases site.path).map Site.unknown := by
  have himported := (imports_of_ofLogic logic h).asImported
  obtain ⟨a, ha, -, hlogic⟩ := exists_ofLogic_toLogic (himported.mono fun _ _ => AsImported.kept)
  rw [hideDefault_of_asImported himported] at hlogic
  have hsites := e.sites_append [] aliases
  rw [List.nil_append] at hsites
  have hknown : ∀ site ∈ e.sites [], site.aliases ≠ [] →
      catalog.Knows (site.aliases ++ aliases) site.path := by
    intro site hmem hne
    have hmem' : ⟨site.path, site.span, site.aliases ++ aliases⟩ ∈ e.sites aliases := by
      rw [hsites]
      exact List.mem_map_of_mem hmem
    have hkept : Logic.resolvePath catalog (site.aliases ++ aliases) site.path = site.path :=
      himported.of_mem_sites hmem'
    refine (Logic.resolvePath_eq_self_iff.1 hkept).resolve_left fun hnil => hne ?_
    exact (List.append_eq_nil_iff.1 hnil).1
  refine ⟨⟨a, ha, hlogic⟩, hknown, ?_, ?_⟩
  · rw [unknown_checkUnder, hsites, List.filter_map, List.map_map]
    refine congrArg (List.map _) (List.filter_congr fun site hmem => ?_)
    by_cases hout : site.aliases = []
    · simp [hout]
    · simp [hout, hknown site hmem hout]
  · rw [check, unknown_checkUnder]
    refine congrArg (List.map _) (List.filter_congr fun site hmem => ?_)
    by_cases hout : site.aliases = []
    · simp [hout]
    by_cases hknows : catalog.Knows site.aliases site.path
    · simp [hknows]
    -- what the aliases in the condition do not bind, the given ones do
    have hgiven : ∃ name ∈ aliases, Path.isRelativeTo name site.path = true := by
      rcases hknown site hmem hout with ⟨name, hname, hrelative⟩ | hcatalog
      · rcases List.mem_append.1 hname with hname | hname
        · exact absurd (.inl ⟨name, hname, hrelative⟩) hknows
        · exact ⟨name, hname, hrelative⟩
      · exact absurd (.inr hcatalog) hknows
    simp [hknows, hgiven]

/-- Lists with one operand, a path in a list, paths without alias and a blank alias. -/
def unsettled : Json :=
  .object [("or", .array [
    .object [("var", .string "level")],
    .object [("all", .array [
      .object [("var", .array [.string "items"])],
      .object [("and", .array [
        .object [("or", .array [.object [("var", .string "level")]])],
        .object [("some", .array [
          .object [("var", .string "y.tags")],
          .object [("==", .array [
            .object [("var", .string "")], .object [("var", .string "status")]])],
          .string " "])]])],
      .string "x"])]])]

/-- The same in normal form, inside a quantifier with the alias `y`. -/
def settled : Json :=
  .object [("or", .array [
    .object [("var", .string "y.level")],
    .object [("all", .array [
      .object [("var", .string "items")],
      .object [("and", .array [
        .object [("var", .string "x.level")],
        .object [("some", .array [
          .object [("var", .string "y.tags")],
          .object [("==", .array [.object [("var", .string "item")],
            .object [("var", .string "status")]])]])]])],
      .string "x"])]])]

theorem ofLogic_normal_unsettled :
    ∃ e a, ofLogic stockCatalog ["y"] unsettled = .ok e ∧ e.toLogic = settled ∧
      ofLogic stockCatalog ["y"] settled = .ok a ∧ a.toLogic = settled ∧
      unknown (checkUnder stockCatalog ["y"] e).findings = [] ∧
      unknown (e.check stockCatalog) =
        [⟨.unknownVariable "y.level", none, "variable"⟩,
          ⟨.unknownVariable "y.tags", none, "variable"⟩] := by
  obtain ⟨e, he⟩ : ∃ e, ofLogic stockCatalog ["y"] unsettled = .ok e := ⟨_, rfl⟩
  obtain ⟨⟨a, ha, hlogic⟩, -, hunder, hcheck⟩ := ofLogic_normal he
  have hsettled : e.toLogic = settled := by
    obtain rfl := Except.ok.inj he
    rfl
  rw [hsettled] at ha hlogic
  refine ⟨e, a, he, hsettled, ha, hlogic, hunder.trans ?_, hcheck.trans ?_⟩
  · obtain rfl := Except.ok.inj he
    decide
  · obtain rfl := Except.ok.inj he
    decide

end Expr

end Criteria
