import Criteria.Proofs.Expr.Nesting
import Criteria.Proofs.Expr.Outline
import Criteria.Proofs.Expr.Renaming

/-!
# Alias names in the check

The check knows an alias by its level, so one name is as good as another, except in two places. It
looks variables up without regard to the aliases around them, when it compares types and when it
judges a collection: there a variable of an alias may pass for a catalog variable
(`Expr.Uncaptured` says that it does not). And a comparison judges all variables under it by the
aliases around the comparison: there a variable of an inner quantifier may pass for one of an outer
quantifier with the same alias (`Expr.ComparedInside`). Where neither happens, renaming an alias
changes no code of what is found (`Expr.codes_renameAlias`).
-/

namespace Criteria

/-! ## Levels of renamed variables -/

theorem Path.isRelativeTo_rename {old path : String} (new : String)
    (h : isRelativeTo old path = true) : isRelativeTo new (rename old new path) = true := by
  rcases cases_of_isRelativeTo h with rfl | ⟨rest, -, rfl⟩
  · rw [rename_self]
    simp [isRelativeTo]
  · rw [rename_append, isRelativeTo, after?_append]
    simp

section Levels

variable {old new path : String} {inner outer : List String}

/-- A variable that is not relative to the inner aliases is bound further out. -/
theorem bindingLevel?_append_cons (h : ∀ name ∈ inner, Path.isRelativeTo name path = false)
    (name : String) :
    bindingLevel? path (inner ++ name :: outer) =
      if Path.isRelativeTo name path then some outer.length else bindingLevel? path outer := by
  induction inner with
  | nil => rfl
  | cons first inner ih =>
    obtain ⟨hfirst, hinner⟩ := List.forall_mem_cons.1 h
    rw [List.cons_append, bindingLevel?, hfirst, if_neg Bool.false_ne_true, ih hinner]

/-- The name of an alias does not matter for variables that are not bound by it. -/
theorem bindingLevel?_swap
    (hold : Path.isRelativeTo old path = true → ∃ name ∈ inner, Path.isRelativeTo name path = true)
    (hnew : Path.isRelativeTo new path = false) :
    bindingLevel? path (inner ++ old :: outer) = bindingLevel? path (inner ++ new :: outer) := by
  by_cases hinner : ∀ name ∈ inner, Path.isRelativeTo name path = false
  · have hnone : Path.isRelativeTo old path = false := by
      rw [← Bool.not_eq_true]
      intro hrelative
      obtain ⟨name, hname, hbound⟩ := hold hrelative
      rw [hinner name hname] at hbound
      cases hbound
    rw [bindingLevel?_append_cons hinner, bindingLevel?_append_cons hinner, hnone, hnew]
  · clear hold
    induction inner with
    | nil => exact absurd (fun name hname => nomatch hname) hinner
    | cons first inner ih =>
      rw [List.cons_append, List.cons_append, bindingLevel?, bindingLevel?]
      cases hfirst : Path.isRelativeTo first path with
      | true => simp
      | false =>
        have hrest : ¬∀ name ∈ inner, Path.isRelativeTo name path = false := fun hrest =>
          hinner (List.forall_mem_cons.2 ⟨hfirst, hrest⟩)
        simpa using ih hrest

/-- A renamed variable is on the level on which it was. -/
theorem bindingLevel?_rename (hold : '.' ∉ old.toList) (hnew : '.' ∉ new.toList)
    (hinner : ∀ name ∈ inner, '.' ∉ name.toList ∧ name ≠ old ∧ name ≠ new)
    (hfresh : Path.isRelativeTo new path = false) :
    bindingLevel? path (inner ++ old :: outer) =
      bindingLevel? (Path.rename old new path) (inner ++ new :: outer) := by
  cases hrelative : Path.isRelativeTo old path with
  | false =>
    rw [Path.rename_eq_self hrelative]
    exact bindingLevel?_swap (fun h => by rw [hrelative] at h; cases h) hfresh
  | true =>
    have hrenamed := Path.isRelativeTo_rename new hrelative
    have hnone : ∀ name ∈ inner, Path.isRelativeTo name path = false := by
      intro name hname
      obtain ⟨hdot, hne, -⟩ := hinner name hname
      rw [← Bool.not_eq_true]
      exact fun h => hne (Path.eq_of_isRelativeTo hdot hold h hrelative)
    have hnone' : ∀ name ∈ inner, Path.isRelativeTo name (Path.rename old new path) = false := by
      intro name hname
      obtain ⟨hdot, -, hne⟩ := hinner name hname
      rw [← Bool.not_eq_true]
      exact fun h => hne (Path.eq_of_isRelativeTo hdot hnew h hrenamed)
    rw [bindingLevel?_append_cons hnone, bindingLevel?_append_cons hnone', hrelative, hrenamed]
    rfl

end Levels

namespace Expr

/-! ## Parts of a condition -/

theorem mem_nodes_self (e : Expr) : e ∈ e.nodes := by
  cases e <;> exact List.mem_cons_self ..

section Parts

variable (a b : Expr)

theorem nodes_subset_not (s t : Option Span) : a.nodes ⊆ (not a s t).nodes :=
  List.subset_cons_self ..

theorem nodes_subset_left (op : BinaryOp) (s t : Option Span) :
    a.nodes ⊆ (binary op a b s t).nodes :=
  List.subset_cons_of_subset _ (List.subset_append_left ..)

theorem nodes_subset_right (op : BinaryOp) (s t : Option Span) :
    b.nodes ⊆ (binary op a b s t).nodes :=
  List.subset_cons_of_subset _ (List.subset_append_right ..)

theorem nodes_subset_collection (q : Quantifier) (binder : Alias) (spans : QuantifierSpans) :
    a.nodes ⊆ (quantified q a b binder spans).nodes :=
  List.subset_cons_of_subset _ (List.subset_append_left ..)

theorem nodes_subset_predicate (q : Quantifier) (binder : Alias) (spans : QuantifierSpans) :
    b.nodes ⊆ (quantified q a b binder spans).nodes :=
  List.subset_cons_of_subset _ (List.subset_append_right ..)

end Parts

/-! ## Where names matter -/

/-- A comparison of the condition stands around a part of it. -/
def Compared (e part : Expr) : Prop := ∃ n ∈ e.nodes, n.isComparison = true ∧ part ∈ n.nodes

instance (e part : Expr) : Decidable (e.Compared part) :=
  inferInstanceAs (Decidable (∃ _ ∈ _, _))

theorem Compared.of_nodes {part e whole : Expr} (h : e.Compared part)
    (hnodes : e.nodes ⊆ whole.nodes) : whole.Compared part := by
  obtain ⟨n, hn, hcomparison, hpart⟩ := h
  exact ⟨n, hnodes hn, hcomparison, hpart⟩

/-- A comparison stands between a quantifier and a part of its predicate. -/
def ComparedInside (e part : Expr) : Prop :=
  match e with
  | .quantified _ _ predicate _ _ => predicate.Compared part
  | _ => False

instance (e part : Expr) : Decidable (e.ComparedInside part) :=
  match e with
  | .literal .. => .isFalse id
  | .reference .. => .isFalse id
  | .not .. => .isFalse id
  | .binary .. => .isFalse id
  | .quantified _ _ predicate _ _ => inferInstanceAs (Decidable (predicate.Compared part))

/-- A collection that is relative to the alias is an array where it is in the catalog. -/
def ArrayIfListed (catalog : Catalog) (name : String) : Expr → Prop
  | .reference path _ =>
    Path.isRelativeTo name path = true → ∀ d ∈ catalog.lookup? path, d.type = .array
  | _ => True

instance (catalog : Catalog) (name : String) (e : Expr) :
    Decidable (e.ArrayIfListed catalog name) :=
  match e with
  | .reference path _ => inferInstanceAs (Decidable (_ → ∀ d ∈ catalog.lookup? path, _))
  | .literal .. => .isTrue trivial
  | .not .. => .isTrue trivial
  | .binary .. => .isTrue trivial
  | .quantified .. => .isTrue trivial

/-- No variable of an alias passes for a catalog variable: what the check looks up and is relative
to the alias is not in the catalog, or it is the collection of a quantifier and in the catalog as an
array. Under a comparison all variables are looked up, and elsewhere the collections. -/
def Uncaptured (catalog : Catalog) (name : String) (compared : Prop) : Expr → Prop
  | .literal .. => True
  | .reference path _ =>
    compared → Path.isRelativeTo name path = true → catalog.lookup? path = none
  | .not argument _ _ => argument.Uncaptured catalog name compared
  | .binary (.logical _) left right _ _ =>
    left.Uncaptured catalog name compared ∧ right.Uncaptured catalog name compared
  | .binary (.compare _) left right _ _ =>
    left.Uncaptured catalog name True ∧ right.Uncaptured catalog name True
  | .quantified _ collection predicate binder _ =>
    collection.ArrayIfListed catalog name ∧ collection.Uncaptured catalog name compared ∧
      (binder.name ≠ name → predicate.Uncaptured catalog name compared)

/-- Whether a catalog variable is captured. -/
def decideUncaptured (catalog : Catalog) (name : String) (compared : Prop) [Decidable compared] :
    (e : Expr) → Decidable (e.Uncaptured catalog name compared)
  | .literal .. => .isTrue trivial
  | .reference path _ =>
    inferInstanceAs (Decidable (compared → _ = true → catalog.lookup? path = none))
  | .not argument _ _ => decideUncaptured catalog name compared argument
  | .binary (.logical _) left right _ _ =>
    have := decideUncaptured catalog name compared left
    have := decideUncaptured catalog name compared right
    inferInstanceAs (Decidable (_ ∧ _))
  | .binary (.compare _) left right _ _ =>
    have := decideUncaptured catalog name True left
    have := decideUncaptured catalog name True right
    inferInstanceAs (Decidable (_ ∧ _))
  | .quantified _ collection predicate binder _ =>
    have := decideUncaptured catalog name compared collection
    have := decideUncaptured catalog name compared predicate
    inferInstanceAs (Decidable (_ ∧ _ ∧ (binder.name ≠ name → _)))

instance (catalog : Catalog) (name : String) (compared : Prop) [Decidable compared] (e : Expr) :
    Decidable (e.Uncaptured catalog name compared) :=
  decideUncaptured catalog name compared e

variable {catalog : Catalog} {old new : String} {inner outer : List String} {e : Expr}

theorem Uncaptured.mono {p q : Prop} (h : e.Uncaptured catalog old p) (hqp : q → p) :
    e.Uncaptured catalog old q := by
  induction e with
  | literal => trivial
  | reference => exact fun hq => h (hqp hq)
  | not _ _ _ ih => exact ih h
  | binary op _ _ _ _ iha ihb =>
    cases op with
    | logical => exact ⟨iha h.1, ihb h.2⟩
    | compare => exact h
  | quantified _ _ _ _ _ iha ihb => exact ⟨h.1, iha h.2.1, fun hne => ihb (h.2.2 hne)⟩

/-! ## Variables of a renamed alias -/

/-- Nothing is renamed where the alias is bound again. -/
theorem renameBound_eq_self (h : old ∈ inner) : e.renameBound old new inner = e := by
  induction e generalizing inner with
  | literal => rfl
  | reference => rw [renameBound, if_pos h]
  | not _ _ _ ih => rw [renameBound, ih h]
  | binary _ _ _ _ _ iha ihb => rw [renameBound, iha h, ihb h]
  | quantified _ _ _ _ _ iha ihb => rw [renameBound, iha h, ihb (List.mem_cons_of_mem _ h)]

/-- Under a comparison a variable is renamed and not in the catalog, or bound again. -/
theorem forall₂_renameBound (new : String) {rebound : Prop} (hinner : old ∈ inner → rebound)
    (hnodes : ∀ r ∈ e.nodes, r.alias? = some old → rebound)
    (h : old ∉ inner → e.Uncaptured catalog old True) :
    List.Forall₂ (fun o o' : String × Option Span =>
        (o'.1 = Path.rename old new o.1 ∧
          (Path.isRelativeTo old o.1 = true → catalog.lookup? o.1 = none)) ∨
        (o'.1 = o.1 ∧ rebound)) e.references (e.renameBound old new inner).references := by
  induction e generalizing inner with
  | literal => exact .nil
  | reference path span =>
    refine .cons ?_ .nil
    by_cases hmem : old ∈ inner
    · exact .inr ⟨if_pos hmem, hinner hmem⟩
    · exact .inl ⟨if_neg hmem, h hmem trivial⟩
  | not _ _ _ ih => exact ih hinner (fun r hr => hnodes r (nodes_subset_not _ _ _ hr)) h
  | binary op a b _ _ iha ihb =>
    have ha : old ∉ inner → a.Uncaptured catalog old True := fun hmem => by
      cases op <;> exact (h hmem).1
    have hb : old ∉ inner → b.Uncaptured catalog old True := fun hmem => by
      cases op <;> exact (h hmem).2
    exact List.rel_append
      (iha hinner (fun r hr => hnodes r (nodes_subset_left a b op _ _ hr)) ha)
      (ihb hinner (fun r hr => hnodes r (nodes_subset_right a b op _ _ hr)) hb)
  | quantified q a b binder _ iha ihb =>
    refine List.rel_append
      (iha hinner (fun r hr => hnodes r (nodes_subset_collection a b q _ _ hr))
        fun hmem => (h hmem).2.1)
      (ihb ?_ (fun r hr => hnodes r (nodes_subset_predicate a b q _ _ hr)) ?_)
    · intro hmem
      rcases List.mem_cons.1 hmem with heq | hmem
      · exact hnodes _ (List.mem_cons_self ..) (congrArg some heq.symm)
      · exact hinner hmem
    · intro hmem
      rw [List.mem_cons, not_or] at hmem
      exact (h hmem.2).2.2 (Ne.symm hmem.1)

/-! ## Inside the quantifier -/

/-- Where the alias is bound again nothing changes. -/
theorem checkedAlike_of_rebound (hinner : old ∈ inner) (hfresh : e.Fresh new) :
    CheckedAlike catalog (inner ++ old :: outer) (inner ++ new :: outer) e e := by
  have hlevel : ∀ {inner : List String}, old ∈ inner →
      ∀ path, Path.isRelativeTo new path = false →
        bindingLevel? path (inner ++ old :: outer) = bindingLevel? path (inner ++ new :: outer) :=
    fun hinner path => bindingLevel?_swap fun h => ⟨old, hinner, h⟩
  induction e generalizing inner with
  | literal => exact .literal
  | reference path =>
    exact .reference (hlevel hinner path (fresh_reference.1 hfresh)) fun _ => rfl
  | not _ _ _ ih => exact .not (ih hinner hfresh)
  | binary op a b _ _ iha ihb =>
    have hsame : ∀ e : Expr, e.Fresh new → List.Forall₂
        (SameVariable catalog (inner ++ old :: outer) (inner ++ new :: outer))
        e.references e.references :=
      fun e h => List.forall₂_same.2 fun o ho => ⟨hlevel hinner o.1 (h o ho), rfl⟩
    obtain ⟨ha, hb⟩ := fresh_binary.1 hfresh
    cases op with
    | logical => exact .logical (iha hinner ha) (ihb hinner hb)
    | compare => exact .compare (iha hinner ha) (ihb hinner hb) (hsame a ha) (hsame b hb)
  | quantified q a b binder _ iha ihb =>
    obtain ⟨ha, hb⟩ := fresh_quantified.1 hfresh
    have hinside : CheckedAlike catalog (binder.name :: inner ++ old :: outer)
        (binder.name :: inner ++ new :: outer) b b := ihb (List.mem_cons_of_mem _ hinner) hb
    exact .quantified (iha hinner ha) (collectionFindings_codes q a) hinside

/-- A new name for an alias: no alias of the condition has it, and no variable of the condition or
of the catalog is relative to it. -/
structure NewName (catalog : Catalog) (new : String) (e : Expr) : Prop where
  dotless : '.' ∉ new.toList
  fresh : e.Fresh new
  aliases : ∀ n ∈ e.nodes, n.alias? ≠ some new
  catalog : ∀ path ∈ catalog.paths, Path.isRelativeTo new path = false

theorem NewName.of_nodes {part : Expr} (h : NewName catalog new e) (hfresh : part.Fresh new)
    (hnodes : part.nodes ⊆ e.nodes) : NewName catalog new part :=
  ⟨h.dotless, hfresh, fun n hn => h.aliases n (hnodes hn), h.catalog⟩

theorem NewName.lookup?_eq_none (h : NewName catalog new e) {path : String}
    (hrelative : Path.isRelativeTo new path = true) : catalog.lookup? path = none := by
  refine List.find?_eq_none.2 fun d hd hpath => ?_
  have hlisted := h.catalog d.path (List.mem_map_of_mem hd)
  rw [of_decide_eq_true hpath, hrelative] at hlisted
  cases hlisted

/-- The definitions of a variable and of the renamed one, when the alias does not capture it. -/
theorem NewName.lookup?_rename (hnew : NewName catalog new e) {path : String}
    (h : Path.isRelativeTo old path = true → catalog.lookup? path = none) :
    catalog.lookup? path = catalog.lookup? (Path.rename old new path) := by
  cases hrelative : Path.isRelativeTo old path with
  | false => rw [Path.rename_eq_self hrelative]
  | true => rw [h hrelative, hnew.lookup?_eq_none (Path.isRelativeTo_rename new hrelative)]

/-- A renamed collection is judged alike. -/
theorem collectionFindings_renameBound {whole : Expr} (hnew : NewName catalog new whole)
    (hinner : old ∉ inner) (q : Quantifier) {collection : Expr}
    (h : collection.ArrayIfListed catalog old) (e e' : Expr) :
    (collectionFindings catalog q collection e).map (·.finding.code) =
      (collectionFindings catalog q (collection.renameBound old new inner) e').map
        (·.finding.code) := by
  cases collection with
  | reference path span =>
    rw [renameBound, if_neg hinner]
    cases hrelative : Path.isRelativeTo old path with
    | false =>
      rw [Path.rename_eq_self hrelative]
      exact collectionFindings_codes q _ e e'
    | true =>
      simp only [collectionFindings, hnew.lookup?_eq_none (Path.isRelativeTo_rename new hrelative)]
      cases hlookup : catalog.lookup? path with
      | none => rfl
      | some d =>
        simp only [if_pos (h hrelative d hlookup)]
  | _ => rfl

/-- Under a comparison the variables of an alias are on the same levels under its new name, and in
the catalog neither before nor after. -/
theorem sameVariable_renameBound (hold : '.' ∉ old.toList) (hnew : NewName catalog new e)
    (hinner : ∀ name ∈ inner, '.' ∉ name.toList ∧ name ≠ old ∧ name ≠ new)
    (hcaptured : e.Uncaptured catalog old True) (hnodes : ∀ r ∈ e.nodes, r.alias? ≠ some old) :
    List.Forall₂ (SameVariable catalog (inner ++ old :: outer) (inner ++ new :: outer))
      e.references (e.renameBound old new inner).references := by
  have hmem : old ∉ inner := fun h => (hinner old h).2.1 rfl
  have hrenamed := forall₂_renameBound new hmem hnodes fun _ => hcaptured
  refine ((List.forall₂_and_left _ _).2 ⟨hnew.fresh, hrenamed⟩).imp ?_
  rintro o o' ⟨hfresh, ⟨hpath, hlookup⟩ | ⟨-, hfalse⟩⟩
  · rw [SameVariable, hpath]
    exact ⟨bindingLevel?_rename hold hnew.dotless hinner hfresh,
      hnew.lookup?_rename hlookup⟩
  · exact hfalse.elim

/-- **The predicate of a quantifier is checked alike under a new name of the alias.** -/
theorem checkedAlike_renameBound (hold : '.' ∉ old.toList) (hwell : e.WellFormed)
    (hnew : NewName catalog new e)
    (hinner : ∀ name ∈ inner, '.' ∉ name.toList ∧ name ≠ old ∧ name ≠ new)
    (hcaptured : e.Uncaptured catalog old False)
    (hnested : ∀ r ∈ e.nodes, r.alias? = some old → ¬e.Compared r) :
    CheckedAlike catalog (inner ++ old :: outer) (inner ++ new :: outer) e
      (e.renameBound old new inner) := by
  have hmem : ∀ {inner : List String},
      (∀ name ∈ inner, '.' ∉ name.toList ∧ name ≠ old ∧ name ≠ new) → old ∉ inner :=
    fun hinner h => (hinner old h).2.1 rfl
  have hpart : ∀ {part whole : Expr}, part.nodes ⊆ whole.nodes →
      (∀ r ∈ whole.nodes, r.alias? = some old → ¬whole.Compared r) →
        ∀ r ∈ part.nodes, r.alias? = some old → ¬part.Compared r :=
    fun hnodes h r hr halias hcompared => h r (hnodes hr) halias (hcompared.of_nodes hnodes)
  -- along the predicate, where no quantifier around the part that is reached has the old alias
  induction e generalizing inner with
  | literal => exact .literal
  | reference path =>
    have hfresh := fresh_reference.1 hnew.fresh
    rw [renameBound, if_neg (hmem hinner)]
    refine .reference (bindingLevel?_rename hold hnew.dotless hinner hfresh) fun hnone => ?_
    have hunbound := bindingLevel?_eq_none.1 hnone old (by simp)
    rw [Path.rename_eq_self hunbound]
  | not a s t ih =>
    have hnodes := nodes_subset_not a s t
    exact .not (ih hwell (hnew.of_nodes hnew.fresh hnodes) hinner hcaptured (hpart hnodes hnested))
  | binary op a b s t iha ihb =>
    obtain ⟨hfresha, hfreshb⟩ := fresh_binary.1 hnew.fresh
    have hnodesa := nodes_subset_left a b op s t
    have hnodesb := nodes_subset_right a b op s t
    have hnewa := hnew.of_nodes hfresha hnodesa
    have hnewb := hnew.of_nodes hfreshb hnodesb
    have hnesteda := hpart hnodesa hnested
    have hnestedb := hpart hnodesb hnested
    cases op with
    | logical =>
      exact .logical (iha hwell.1 hnewa hinner hcaptured.1 hnesteda)
        (ihb hwell.2 hnewb hinner hcaptured.2 hnestedb)
    | compare c =>
      -- a comparison sees past quantifiers under it, so none of them may bind the alias again
      have hnone : ∀ r ∈ (binary (.compare c) a b s t).nodes, r.alias? ≠ some old :=
        fun r hr halias => hnested r hr halias ⟨_, List.mem_cons_self .., rfl, hr⟩
      have hfalse : ∀ {x : Expr}, x.Uncaptured catalog old True → x.Uncaptured catalog old False :=
        fun h => h.mono fun hfalse => hfalse.elim
      exact .compare (iha hwell.1 hnewa hinner (hfalse hcaptured.1) hnesteda)
        (ihb hwell.2 hnewb hinner (hfalse hcaptured.2) hnestedb)
        (sameVariable_renameBound hold hnewa hinner hcaptured.1 fun r hr => hnone r (hnodesa hr))
        (sameVariable_renameBound hold hnewb hinner hcaptured.2 fun r hr => hnone r (hnodesb hr))
  | quantified q a b binder spans iha ihb =>
    obtain ⟨hfresha, hfreshb⟩ := fresh_quantified.1 hnew.fresh
    obtain ⟨hcollection, hcaptureda, hcapturedb⟩ := hcaptured
    have hnodesa := nodes_subset_collection a b q binder spans
    have hnodesb := nodes_subset_predicate a b q binder spans
    have hb : CheckedAlike catalog (binder.name :: (inner ++ old :: outer))
        (binder.name :: (inner ++ new :: outer)) b
        (b.renameBound old new (binder.name :: inner)) := by
      by_cases hname : binder.name = old
      · have hrebound : old ∈ binder.name :: inner := hname ▸ List.mem_cons_self ..
        rw [renameBound_eq_self hrebound]
        exact checkedAlike_of_rebound hrebound hfreshb
      · have hne : binder.name ≠ new := fun h =>
          hnew.aliases _ (List.mem_cons_self ..) (congrArg some h)
        exact ihb hwell.2.1 (hnew.of_nodes hfreshb hnodesb)
          (List.forall_mem_cons.2 ⟨⟨hwell.2.2.2.1, hname, hne⟩, hinner⟩) (hcapturedb hname)
          (hpart hnodesb hnested)
    exact .quantified
      (iha hwell.1 (hnew.of_nodes hfresha hnodesa) hinner hcaptureda (hpart hnodesa hnested))
      (collectionFindings_renameBound hnew (hmem hinner) q hcollection) hb

/-! ## Around the quantifier -/

theorem Replaces.nodes_subset {a b e e' : Expr} (h : Replaces a b e e') : a.nodes ⊆ e.nodes := by
  induction h with
  | here => exact List.Subset.refl _
  | not _ ih => exact List.Subset.trans ih (nodes_subset_not ..)
  | left _ ih => exact List.Subset.trans ih (nodes_subset_left ..)
  | right _ ih => exact List.Subset.trans ih (nodes_subset_right ..)
  | collection _ ih => exact List.Subset.trans ih (nodes_subset_collection ..)
  | predicate _ ih => exact List.Subset.trans ih (nodes_subset_predicate ..)

theorem Replaces.wellFormed {a b e e' : Expr} (h : Replaces a b e e') (he : e.WellFormed) :
    a.WellFormed := by
  induction h with
  | here => exact he
  | not _ ih => exact ih he
  | left _ ih => exact ih he.1
  | right _ ih => exact ih he.2
  | collection _ ih => exact ih he.1
  | predicate _ ih => exact ih he.2.1

/-- The variables of a condition are related where those of the replaced part are. -/
theorem Replaces.forall₂_references {a b e e' : Expr} (h : Replaces a b e e')
    {R : String × Option Span → String × Option Span → Prop} (hrefl : ∀ o, R o o)
    (hab : List.Forall₂ R a.references b.references) :
    List.Forall₂ R e.references e'.references := by
  have hself : ∀ os : List (String × Option Span), List.Forall₂ R os os :=
    fun os => List.forall₂_same.2 fun o _ => hrefl o
  induction h with
  | here => exact hab
  | not _ ih => exact ih
  | left _ ih => exact List.rel_append ih (hself _)
  | right _ ih => exact List.rel_append (hself _) ih
  | collection _ ih => exact List.rel_append ih (hself _)
  | predicate _ ih => exact List.rel_append (hself _) ih

/-- Around the quantifier its variables are bound by nothing, under either name. -/
theorem sameVariable_around {whole : Expr} {around : List String} (hold : '.' ∉ old.toList)
    (hnew : NewName catalog new whole) (haround : ∀ name ∈ around, '.' ∉ name.toList ∧ name ≠ new)
    (hmem : old ∉ around) (hcaptured : e.Uncaptured catalog old True) :
    List.Forall₂ (SameVariable catalog around around) e.references
      (e.renameBound old new []).references := by
  refine .imp ?_ (forall₂_renameBound new (fun _ => trivial) (fun _ _ _ => trivial)
    fun _ => hcaptured)
  rintro ⟨path, span⟩ ⟨path', span'⟩ (⟨hpath, hlookup⟩ | ⟨hpath, -⟩)
  · dsimp only at hpath hlookup
    subst hpath
    refine ⟨?_, hnew.lookup?_rename hlookup⟩
    cases hrelative : Path.isRelativeTo old path with
    | false => rw [Path.rename_eq_self hrelative]
    | true =>
      have hrenamed := Path.isRelativeTo_rename new hrelative
      have hnone : bindingLevel? path around = none := by
        refine bindingLevel?_eq_none.2 fun name hname => ?_
        rw [← Bool.not_eq_true]
        intro h
        exact hmem (Path.eq_of_isRelativeTo (haround name hname).1 hold h hrelative ▸ hname)
      have hnone' : bindingLevel? (Path.rename old new path) around = none := by
        refine bindingLevel?_eq_none.2 fun name hname => ?_
        rw [← Bool.not_eq_true]
        intro h
        exact (haround name hname).2
          (Path.eq_of_isRelativeTo (haround name hname).1 hnew.dotless h hrenamed)
      dsimp only
      rw [hnone, hnone']
  · dsimp only at hpath
    subst hpath
    exact ⟨rfl, rfl⟩

section Around

variable {q : Quantifier} {collection predicate : Expr} {binder : Alias} {spans : QuantifierSpans}

/-- A collection in which a quantifier stands is no variable. -/
theorem Replaces.collectionFindings_codes {b e' : Expr}
    (h : Replaces (.quantified q collection predicate binder spans) b e e')
    (hb : ∀ path span, b ≠ .reference path span) (q' : Quantifier) (x x' : Expr) :
    (collectionFindings catalog q' e x).map (·.finding.code) =
      (collectionFindings catalog q' e' x').map (·.finding.code) := by
  cases h with
  | here =>
    cases b with
    | reference path span => exact absurd rfl (hb path span)
    | _ => rfl
  | _ => rfl

/-- Under a comparison around the quantifier the variables are on the same levels, and have the same
definitions. -/
theorem Replaces.sameVariable {e' : Expr} {around : List String}
    (h : Replaces (.quantified q collection predicate binder spans)
      (renameAlias new (.quantified q collection predicate binder spans)) e e')
    (hold : '.' ∉ binder.name.toList) (hnew : NewName catalog new e)
    (haround : ∀ name ∈ around, '.' ∉ name.toList ∧ name ≠ new) (hmem : binder.name ∉ around)
    (hcaptured : predicate.Uncaptured catalog binder.name True) :
    List.Forall₂ (SameVariable catalog around around) e.references e'.references := by
  have hsame : ∀ o, SameVariable catalog around around o o := fun _ => ⟨rfl, rfl⟩
  have hpredicate := sameVariable_around hold hnew haround hmem hcaptured
  exact h.forall₂_references hsame
    (List.rel_append (List.forall₂_same.2 fun o _ => hsame o) hpredicate)

/-- The alias of a quantifier is kept apart from all other names, in a part of a condition around
the quantifier that stands inside of quantifiers with the given aliases. -/
structure KeptApart (catalog : Catalog) (new name : String) (quantifier predicate : Expr)
    (around : List String) (e : Expr) : Prop where
  newName : NewName catalog new e
  outer : name ∈ around → ¬e.Compared quantifier
  uncaptured : predicate.Uncaptured catalog name (e.Compared quantifier)
  nested : ∀ r ∈ e.nodes, r.alias? = some name →
    ¬quantifier.ComparedInside r ∧ ¬r.ComparedInside quantifier

theorem KeptApart.of_nodes {name : String} {quantifier part : Expr} {around : List String}
    (h : KeptApart catalog new name quantifier predicate around e) (hfresh : part.Fresh new)
    (hnodes : part.nodes ⊆ e.nodes) :
    KeptApart catalog new name quantifier predicate around part where
  newName := h.newName.of_nodes hfresh hnodes
  outer hmem hcompared := h.outer hmem (hcompared.of_nodes hnodes)
  uncaptured := h.uncaptured.mono fun hcompared => hcompared.of_nodes hnodes
  nested r hr := h.nested r (hnodes hr)

/-- The alias is kept apart in the predicate of a quantifier around, which is one more alias that
comparisons inside of it see. -/
theorem KeptApart.inside {name : String} {quantifier a b : Expr} {around : List String}
    (h : KeptApart catalog new name quantifier predicate around (.quantified q a b binder spans)) :
    KeptApart catalog new name quantifier predicate (binder.name :: around) b := by
  have hnodes := nodes_subset_predicate a b q binder spans
  refine { h.of_nodes (fresh_quantified.1 h.newName.fresh).2 hnodes with outer := ?_ }
  intro hmem hcompared
  rcases List.mem_cons.1 hmem with heq | hmem
  · exact (h.nested _ (mem_nodes_self _) (congrArg some heq.symm)).2 hcompared
  · exact h.outer hmem (hcompared.of_nodes hnodes)

/-- **A condition is checked alike under a new name of one alias**, when it is kept apart from all
other names. -/
theorem Replaces.checkedAlike {e' : Expr} {around : List String}
    (h : Replaces (.quantified q collection predicate binder spans)
      (renameAlias new (.quantified q collection predicate binder spans)) e e')
    (hwell : e.WellFormed) (haround : ∀ name ∈ around, '.' ∉ name.toList ∧ name ≠ new)
    (hapart : KeptApart catalog new binder.name (.quantified q collection predicate binder spans)
      predicate around e) :
    CheckedAlike catalog around around e e' := by
  have hold : '.' ∉ binder.name.toList := (h.wellFormed hwell).2.2.2.1
  -- along the way to the quantifier, where nothing but its own name changes
  induction h generalizing around with
  | here =>
    have hnodes := nodes_subset_predicate collection predicate q binder spans
    have hfresh := (fresh_quantified.1 hapart.newName.fresh).2
    have hinside : CheckedAlike catalog ([] ++ binder.name :: around) ([] ++ new :: around)
        predicate (predicate.renameBound binder.name new []) :=
      checkedAlike_renameBound hold hwell.2.1 (hapart.newName.of_nodes hfresh hnodes)
        (fun _ hname => nomatch hname) (hapart.uncaptured.mono fun hfalse => hfalse.elim)
        fun r hr halias => (hapart.nested r (hnodes hr) halias).1
    exact .quantified (.refl collection) (Expr.collectionFindings_codes q collection) hinside
  | @not a a' s t h ih =>
    exact .not (ih hwell haround (hapart.of_nodes hapart.newName.fresh (nodes_subset_not a s t)))
  | @left op a a' b s t h ih =>
    have hnodes := nodes_subset_left a b op s t
    have haparta := hapart.of_nodes (fresh_binary.1 hapart.newName.fresh).1 hnodes
    have ha := ih hwell.1 haround haparta
    cases op with
    | logical => exact .logical ha (.refl b)
    | compare c =>
      have hcompared : (binary (.compare c) a b s t).Compared
          (.quantified q collection predicate binder spans) :=
        ⟨_, mem_nodes_self _, rfl, hnodes (h.nodes_subset (mem_nodes_self _))⟩
      exact .compare ha (.refl b)
        (h.sameVariable hold haparta.newName haround (fun hmem => hapart.outer hmem hcompared)
          (hapart.uncaptured.mono fun _ => hcompared))
        (List.forall₂_same.2 fun _ _ => ⟨rfl, rfl⟩)
  | @right op a b b' s t h ih =>
    have hnodes := nodes_subset_right a b op s t
    have hapartb := hapart.of_nodes (fresh_binary.1 hapart.newName.fresh).2 hnodes
    have hb := ih hwell.2 haround hapartb
    cases op with
    | logical => exact .logical (.refl a) hb
    | compare c =>
      have hcompared : (binary (.compare c) a b s t).Compared
          (.quantified q collection predicate binder spans) :=
        ⟨_, mem_nodes_self _, rfl, hnodes (h.nodes_subset (mem_nodes_self _))⟩
      exact .compare (.refl a) hb (List.forall₂_same.2 fun _ _ => ⟨rfl, rfl⟩)
        (h.sameVariable hold hapartb.newName haround (fun hmem => hapart.outer hmem hcompared)
          (hapart.uncaptured.mono fun _ => hcompared))
  | @collection q' a a' b binder' spans' h ih =>
    have hnodes := nodes_subset_collection a b q' binder' spans'
    have ha := ih hwell.1 haround
      (hapart.of_nodes (fresh_quantified.1 hapart.newName.fresh).1 hnodes)
    exact .quantified ha (h.collectionFindings_codes (fun _ _ heq => nomatch heq) q') (.refl b)
  | @predicate q' a b b' binder' spans' h ih =>
    have hne : binder'.name ≠ new := fun heq =>
      hapart.newName.aliases _ (mem_nodes_self _) (congrArg some heq)
    have hb := ih hwell.2.1 (List.forall_mem_cons.2 ⟨⟨hwell.2.2.2.1, hne⟩, haround⟩)
      hapart.inside
    exact .quantified (.refl a) (Expr.collectionFindings_codes q' a) hb

/-- **An alias is only a name, where its variables pass for no others.** A condition that was read
from text is found to have the same faults, by their codes, when one of its quantifiers is given a
new alias, in its binding and in the variables that it binds: provided that no variable of the alias
passes for a catalog variable, and that no comparison stands between the quantifier and another one
with the same alias. -/
theorem codes_renameAlias {text : String} {limit : Int} {e' : Expr}
    (hparse : parse text limit = .ok e)
    (h : Replaces (.quantified q collection predicate binder spans)
      (renameAlias new (.quantified q collection predicate binder spans)) e e')
    (hnew : NewName catalog new e)
    (hcaptured : predicate.Uncaptured catalog binder.name
      (e.Compared (.quantified q collection predicate binder spans)))
    (hnested : ∀ r ∈ e.nodes, r.alias? = some binder.name →
      ¬(quantified q collection predicate binder spans).ComparedInside r ∧
        ¬r.ComparedInside (.quantified q collection predicate binder spans)) :
    (e'.check catalog).map (·.finding.code) = (e.check catalog).map (·.finding.code) := by
  have halike : CheckedAlike catalog [] [] e e' :=
    h.checkedAlike (wellFormed_of_parse hparse) (fun _ hname => nomatch hname)
      ⟨hnew, (fun hmem => nomatch hmem), hcaptured, hnested⟩
  exact (congrArg Prod.fst (halike.outline_eq rfl)).symm

theorem codes_renameAlias_stock : ∃ e e' : Expr,
    parse "status != null && some(items as x, some(x.parts as z, z.level < x.level))" 4 = .ok e ∧
      e'.text = "status != null && some(items as y, some(y.parts as z, z.level < y.level))" ∧
        (e'.check stockCatalog).map (·.finding.code) =
          (e.check stockCatalog).map (·.finding.code) := by
  obtain ⟨e, he⟩ : ∃ e,
      parse "status != null && some(items as x, some(x.parts as z, z.level < x.level))" 4 = .ok e :=
    ⟨_, rfl⟩
  have hnew : NewName stockCatalog "y" e := by
    obtain rfl := Except.ok.inj he
    exact ⟨by decide, by decide, by decide, by decide⟩
  obtain rfl := Except.ok.inj he
  refine ⟨_, _, he, ?_, codes_renameAlias he (.right .here) hnew (by decide) (by decide)⟩
  decide

end Around

/-- A catalog with a variable that is spelled like a variable of the default alias. -/
def scoreCatalog : Catalog :=
  ⟨[⟨"items", .array, [.eq, .ne], .null, .null, .null, .null, .null, .null⟩,
    ⟨"item.score", .string, [.eq, .ne], .null, .null, .null, .null, .null, .null⟩], by decide⟩

/-- A variable of an alias is taken for a catalog variable, until the alias has another name. -/
theorem codes_renameAlias_captured : ∃ e e' : Expr,
    parse "some(items, item.score == true)" 64 = .ok e ∧ Replaces e (renameAlias "x" e) e e' ∧
      e.alias? = some "item" ∧ NewName scoreCatalog "x" e ∧
        (e.check scoreCatalog).map (·.finding.code) = [.typeMismatch] ∧
          (e'.check scoreCatalog).map (·.finding.code) = [] := by
  obtain ⟨e, he⟩ : ∃ e, parse "some(items, item.score == true)" 64 = .ok e := ⟨_, rfl⟩
  refine ⟨e, _, he, .here, ?_⟩
  obtain rfl := Except.ok.inj he
  exact ⟨rfl, ⟨by decide, by decide, by decide, by decide⟩, by decide, by decide⟩

-- A comparison takes a variable of the inner quantifier for one of the outer quantifier, until one
-- of the two aliases has another name.
example : ∃ e e' : Expr, parse "some(items as x, some(items as x, x.done) == null)" 64 = .ok e ∧
    Replaces e (renameAlias "y" e) e e' ∧ e.check stockCatalog = [] ∧
      (e'.check stockCatalog).map (·.finding.code) = [.invalidQuantifier] := by
  refine ⟨_, _, rfl, .here, ?_, ?_⟩ <;> decide

end Expr

end Criteria
