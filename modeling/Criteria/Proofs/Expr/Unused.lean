import Criteria.Proofs.Expr.AliasNames
import Criteria.Proofs.Expr.Sites

/-!
# Aliases that are not used

The check reports every quantifier whose alias it has not seen used. It sees a variable where the
variable stands and, from every comparison around it, once more, with the aliases around the
comparison only (`Expr.sightings`). So a quantifier is reported exactly when nothing that is seen in
its predicate is bound to it, and what is reported is not used (`Expr.unusedAliases_check`).

It is not reported either when a comparison in its predicate takes a variable of a quantifier further
in for one of its own (`QuantifierNode.Retaken`).
-/

namespace Criteria

/-- The finding is that an alias is not used. -/
def Finding.isUnused : Finding → Bool
  | .aliasNotUsed _ => true
  | _ => false

/-- A quantifier of a condition. -/
structure QuantifierNode where
  quantifier : Quantifier
  collection : Expr
  predicate : Expr
  binder : Alias
  spans : QuantifierSpans

namespace Expr

/-- The quantifiers of a condition, each after those inside it. -/
def quantifiers : Expr → List QuantifierNode
  | .literal .. => []
  | .reference .. => []
  | .not argument _ _ => argument.quantifiers
  | .binary _ left right _ _ => left.quantifiers ++ right.quantifiers
  | .quantified q collection predicate binder spans =>
    collection.quantifiers ++ predicate.quantifiers ++ [⟨q, collection, predicate, binder, spans⟩]

/-- The variables that the check sees in a condition, with the aliases by which it judges them: each
one where it stands, and once more from every comparison around it. -/
def sightings (aliases : List String) : Expr → List Site
  | .literal .. => []
  | .reference path span => [⟨path, span, aliases⟩]
  | .not argument _ _ => argument.sightings aliases
  | .binary (.logical _) left right _ _ => left.sightings aliases ++ right.sightings aliases
  | .binary (.compare _) left right _ _ =>
    left.sightings aliases ++ right.sightings aliases ++
      (left.references ++ right.references).map fun occurrence =>
        ⟨occurrence.1, occurrence.2, aliases⟩
  | .quantified _ collection predicate binder _ =>
    collection.sightings aliases ++ predicate.sightings (binder.name :: aliases)

end Expr

namespace QuantifierNode

/-- The quantifier as a node. -/
def expr (q : QuantifierNode) : Expr :=
  .quantified q.quantifier q.collection q.predicate q.binder q.spans

/-- What is reported of a quantifier whose alias is not used. -/
def unused (q : QuantifierNode) : Located :=
  ⟨.aliasNotUsed q.binder.name, q.spans.predicate.or q.spans.whole, q.expr.kind⟩

/-- A variable in the predicate is bound to the quantifier: it is relative to its alias and not to
one of a quantifier further in. -/
def Binds (q : QuantifierNode) (site : Site) : Prop :=
  Path.isRelativeTo q.binder.name site.path = true ∧
    ∀ name ∈ site.aliases, Path.isRelativeTo name site.path = false

/-- A variable of the predicate is bound to the quantifier. -/
def Used (q : QuantifierNode) : Prop := ∃ site ∈ q.predicate.sites [], q.Binds site

/-- A variable that the check sees in the predicate is bound to the quantifier. -/
def Sighted (q : QuantifierNode) : Prop := ∃ site ∈ q.predicate.sightings [], q.Binds site

/-- Under a comparison of the predicate stands a variable that is relative to the alias, and to that
of a quantifier that stands between it and the comparison. -/
def Retaken (q : QuantifierNode) : Prop :=
  ∃ c ∈ q.predicate.nodes, c.isComparison = true ∧ ∃ site ∈ c.sites [],
    Path.isRelativeTo q.binder.name site.path = true ∧
      ∃ name ∈ site.aliases, Path.isRelativeTo name site.path = true

instance (q : QuantifierNode) (site : Site) : Decidable (q.Binds site) :=
  inferInstanceAs (Decidable (_ ∧ _))

instance (q : QuantifierNode) : Decidable q.Used := inferInstanceAs (Decidable (∃ _ ∈ _, _))

instance (q : QuantifierNode) : Decidable q.Sighted := inferInstanceAs (Decidable (∃ _ ∈ _, _))

end QuantifierNode

namespace Expr

variable {catalog : Catalog} {aliases : List String} {e : Expr}

/-- The quantifiers are the nodes that have an alias. -/
theorem perm_quantifiers (e : Expr) :
    (e.quantifiers.map QuantifierNode.expr).Perm (e.nodes.filter fun n => n.alias?.isSome) := by
  induction e with
  | literal => exact .refl _
  | reference => exact .refl _
  | not _ _ _ ih => exact ih
  | binary _ a b _ _ iha ihb =>
    rw [quantifiers, List.map_append, nodes, List.filter_cons_of_neg (by simp [alias?]),
      List.filter_append]
    exact iha.append ihb
  | quantified q a b binder spans iha ihb =>
    rw [quantifiers, List.map_append, List.map_append, nodes,
      List.filter_cons_of_pos (by simp [alias?]), List.filter_append]
    exact List.perm_append_comm.trans ((iha.append ihb).cons _)

/-! ## What is seen -/

/-- More aliases around a condition are around all that is seen of it. -/
theorem sightings_append (e : Expr) (inner outer : List String) :
    e.sightings (inner ++ outer) =
      (e.sightings inner).map fun site => { site with aliases := site.aliases ++ outer } := by
  induction e generalizing inner with
  | literal => rfl
  | reference => rfl
  | not _ _ _ ih => exact ih inner
  | binary op _ _ _ _ iha ihb =>
    cases op with
    | logical => rw [sightings, sightings, List.map_append, iha, ihb]
    | compare =>
      simp only [sightings, List.map_append, List.map_map, Function.comp_def, iha, ihb]
  | quantified _ _ _ binder _ ihc ihp =>
    rw [sightings, sightings, List.map_append, ihc, ← List.cons_append, ihp]

/-- Every variable is seen where it stands. -/
theorem sites_subset_sightings (e : Expr) (aliases : List String) :
    e.sites aliases ⊆ e.sightings aliases := by
  induction e generalizing aliases with
  | literal => exact List.Subset.refl _
  | reference => exact List.Subset.refl _
  | not _ _ _ ih => exact ih aliases
  | binary op _ _ _ _ iha ihb =>
    have hboth := List.append_subset.2 ⟨List.subset_append_of_subset_left _ (iha aliases),
      List.subset_append_of_subset_right _ (ihb aliases)⟩
    cases op with
    | logical => exact hboth
    | compare => exact List.subset_append_of_subset_left _ hboth
  | quantified _ _ _ binder _ ihc ihp =>
    exact List.append_subset.2 ⟨List.subset_append_of_subset_left _ (ihc aliases),
      List.subset_append_of_subset_right _ (ihp (binder.name :: aliases))⟩

/-- The site is that of a variable, without the aliases between the variable and where it is seen
from. When there are any, it is seen from a comparison. -/
def Seen (e : Expr) (aliases : List String) (site : Site) : Prop :=
  ∃ inner, ⟨site.path, site.span, inner ++ site.aliases⟩ ∈ e.sites aliases ∧
    (inner = [] ∨ ∃ c ∈ e.nodes, c.isComparison = true ∧
      ⟨site.path, site.span, inner⟩ ∈ c.sites [])

theorem Seen.of_part {part : Expr} {around : List String} {site : Site}
    (h : part.Seen around site) (hsites : part.sites around ⊆ e.sites aliases)
    (hnodes : part.nodes ⊆ e.nodes) : e.Seen aliases site := by
  obtain ⟨inner, hsite, hinner⟩ := h
  exact ⟨inner, hsites hsite, hinner.imp_right fun ⟨c, hc, hcomparison⟩ =>
    ⟨c, hnodes hc, hcomparison⟩⟩

theorem seen_of_mem_sightings {site : Site} (h : site ∈ e.sightings aliases) :
    e.Seen aliases site := by
  induction e generalizing aliases with
  | literal => cases h
  | reference =>
    obtain rfl := List.mem_singleton.1 h
    exact ⟨[], List.mem_singleton_self _, .inl rfl⟩
  | not a s t ih => exact (ih h).of_part (List.Subset.refl _) (nodes_subset_not a s t)
  | binary op a b s t iha ihb =>
    have hboth : site ∈ a.sightings aliases ++ b.sightings aliases →
        (binary op a b s t).Seen aliases site := fun hmem =>
      (List.mem_append.1 hmem).elim
        (fun h => (iha h).of_part (List.subset_append_left ..) (nodes_subset_left a b op s t))
        fun h => (ihb h).of_part (List.subset_append_right ..) (nodes_subset_right a b op s t)
    cases op with
    | logical => exact hboth h
    | compare c =>
      rcases List.mem_append.1 h with h | h
      · exact hboth h
      -- seen from this comparison
      obtain ⟨occurrence, hoccurrence, rfl⟩ := List.mem_map.1 h
      rw [show a.references ++ b.references = (binary (.compare c) a b s t).references from rfl,
        ← map_sites _ []] at hoccurrence
      obtain ⟨site, hsite, rfl⟩ := List.mem_map.1 hoccurrence
      refine ⟨site.aliases, ?_, .inr ⟨_, mem_nodes_self _, rfl, hsite⟩⟩
      rw [← List.nil_append aliases, sites_append]
      exact List.mem_map_of_mem hsite
  | quantified q a b binder spans iha ihb =>
    rcases List.mem_append.1 h with h | h
    · exact (iha h).of_part (List.subset_append_left ..) (nodes_subset_collection a b q binder spans)
    · exact (ihb h).of_part (List.subset_append_right ..) (nodes_subset_predicate a b q binder spans)

end Expr

namespace QuantifierNode

open Criteria.Expr

variable {q : QuantifierNode}

/-- An alias that is used is seen to be used. -/
theorem Used.sighted (h : q.Used) : q.Sighted := by
  obtain ⟨site, hsite, hbinds⟩ := h
  exact ⟨site, sites_subset_sightings _ _ hsite, hbinds⟩

/-- An alias that is seen to be used is used, unless a comparison takes a variable of a quantifier
further in for its own. -/
theorem Sighted.used_or_retaken (h : q.Sighted) : q.Used ∨ q.Retaken := by
  obtain ⟨site, hsite, hrelative, houter⟩ := h
  obtain ⟨inner, hstands, hseen⟩ := seen_of_mem_sightings hsite
  by_cases hinner : ∀ name ∈ inner, Path.isRelativeTo name site.path = false
  · exact .inl ⟨_, hstands, hrelative, List.forall_mem_append.2 ⟨hinner, houter⟩⟩
  · refine .inr ?_
    push Not at hinner
    obtain ⟨name, hname, hbound⟩ := hinner
    rcases hseen with rfl | ⟨c, hc, hcomparison, hmem⟩
    · cases hname
    · exact ⟨c, hc, hcomparison, _, hmem, hrelative, name, hname, Bool.eq_true_of_not_eq_false hbound⟩

end QuantifierNode

namespace Expr

variable {catalog : Catalog} {aliases : List String} {e : Expr}

/-! ## Levels -/

/-- A variable is on the level of a quantifier when it is bound to it. -/
theorem bindingLevel?_eq_length_iff {path name : String} {inner outer : List String} :
    bindingLevel? path (inner ++ name :: outer) = some outer.length ↔
      Path.isRelativeTo name path = true ∧
        ∀ name' ∈ inner, Path.isRelativeTo name' path = false := by
  induction inner with
  | nil =>
    rw [List.nil_append, bindingLevel?]
    split
    · rename_i hrelative
      simp [hrelative]
    · rename_i hrelative
      refine iff_of_false (fun hlevel => ?_) fun h => hrelative h.1
      exact Nat.lt_irrefl _ (bindingLevel?_lt hlevel)
  | cons first inner ih =>
    rw [List.cons_append, bindingLevel?, List.forall_mem_cons]
    split
    · rename_i hrelative
      refine iff_of_false (fun hlevel => ?_) (by simp [hrelative])
      simp only [List.length_append, List.length_cons, Option.some.injEq] at hlevel
      omega
    · rename_i hrelative
      simp [ih, hrelative]

/-- **The levels that are marked as used** are those of the aliases around an expression to which
something that is seen in it is bound. -/
theorem mem_used_iff_sightings (e : Expr) (aliases : List String) (level : Nat) :
    level ∈ (checkUnder catalog aliases e).used ↔ level < aliases.length ∧
      ∃ site ∈ e.sightings aliases, bindingLevel? site.path site.aliases = some level := by
  induction e generalizing aliases with
  | literal => simp [checkUnder, Report.empty, sightings]
  | reference path span =>
    simp only [sightings, List.mem_singleton, exists_eq_left]
    rw [checkUnder]
    cases hlevel : bindingLevel? path aliases with
    | some l =>
      have hlt := bindingLevel?_lt hlevel
      simp only [List.mem_singleton, Option.some.injEq]
      omega
    | none =>
      simp only
      split <;> simp [Report.empty]
  | not _ _ _ ih => exact ih aliases
  | binary op a b s t iha ihb =>
    have hboth : level ∈ (checkUnder catalog aliases a ++ checkUnder catalog aliases b).used ↔
        level < aliases.length ∧ ∃ site ∈ a.sightings aliases ++ b.sightings aliases,
          bindingLevel? site.path site.aliases = some level := by
      simp only [used_append, List.mem_append, iha, ihb, or_and_right, exists_or, and_or_left]
    cases op with
    | logical => exact hboth
    | compare c =>
      -- the comparison marks the variables under it once more
      have hagain : level ∈ (a.references ++ b.references).filterMap
          (fun occurrence => bindingLevel? occurrence.1 aliases) ↔ level < aliases.length ∧
            ∃ site ∈ (a.references ++ b.references).map fun occurrence =>
              (⟨occurrence.1, occurrence.2, aliases⟩ : Site),
                bindingLevel? site.path site.aliases = some level := by
        simp only [List.mem_filterMap, List.mem_map, exists_exists_and_eq_and]
        exact ⟨fun h => ⟨bindingLevel?_lt h.choose_spec.2, h⟩, And.right⟩
      rw [checkUnder, used_append, List.mem_append, hboth, sightings, references, hagain]
      simp only [List.mem_append, or_and_right, exists_or, and_or_left]
  | quantified q a b binder spans iha ihb =>
    have hinside : level ∈ ((checkUnder catalog (binder.name :: aliases) b).used.filter
        (· ≠ aliases.length)) ↔ level < aliases.length ∧
          ∃ site ∈ b.sightings (binder.name :: aliases),
            bindingLevel? site.path site.aliases = some level := by
      rw [List.mem_filter, ihb, List.length_cons, decide_eq_true_eq]
      constructor
      · rintro ⟨⟨hlt, hsite⟩, hne⟩
        exact ⟨by omega, hsite⟩
      · rintro ⟨hlt, hsite⟩
        exact ⟨⟨by omega, hsite⟩, by omega⟩
    rw [checkUnder, used_append, List.mem_append, iha, sightings, hinside]
    simp only [List.mem_append, or_and_right, exists_or, and_or_left]

/-- The alias of a quantifier is marked as used when it is seen to be. -/
theorem contains_used_iff_sighted (catalog : Catalog) (q : QuantifierNode) (aliases : List String) :
    (checkUnder catalog (q.binder.name :: aliases) q.predicate).used.contains aliases.length =
      true ↔ q.Sighted := by
  rw [List.contains_iff_mem, mem_used_iff_sightings, ← List.nil_append (q.binder.name :: aliases),
    sightings_append]
  simp only [List.mem_map, exists_exists_and_eq_and, bindingLevel?_eq_length_iff]
  exact ⟨And.right, fun h => ⟨Nat.lt_succ_self _, h⟩⟩

/-! ## What is reported -/

/-- What is reported of aliases that are not used, among some findings. -/
def unusedAliases (findings : List Located) : List Located := meant Finding.isUnused findings

theorem names_unused : Names Finding.isUnused := by
  constructor <;> intros <;> rfl

/-- A quantifier is reported when nothing that is seen in its predicate is bound to it. -/
theorem unusedAliases_checkUnder (catalog : Catalog) (aliases : List String) (e : Expr) :
    unusedAliases (checkUnder catalog aliases e).findings =
      (e.quantifiers.filter fun q => ¬q.Sighted).map QuantifierNode.unused := by
  induction e generalizing aliases with
  | literal => rfl
  | reference path span =>
    rw [checkUnder, quantifiers]
    split
    · rfl
    · split <;> rfl
  | not _ _ _ ih => exact ih aliases
  | binary op a b s t iha ihb =>
    rw [unusedAliases, names_unused.meant_binary, ← unusedAliases, ← unusedAliases, iha, ihb,
      quantifiers, List.filter_append, List.map_append]
  | quantified q a b binder spans iha ihb =>
    have hown : meant Finding.isUnused
        (if (checkUnder catalog (binder.name :: aliases) b).used.contains aliases.length then []
          else [⟨.aliasNotUsed binder.name, spans.predicate.or spans.whole,
            (Expr.quantified q a b binder spans).kind⟩]) =
        (([⟨q, a, b, binder, spans⟩] : List QuantifierNode).filter fun q => ¬q.Sighted).map
          QuantifierNode.unused := by
      have hsighted := contains_used_iff_sighted catalog ⟨q, a, b, binder, spans⟩
        aliases
      by_cases h : QuantifierNode.Sighted ⟨q, a, b, binder, spans⟩
      · rw [if_pos (hsighted.2 h), List.filter_cons_of_neg (by simpa using h)]
        rfl
      · rw [if_neg (mt hsighted.1 h), List.filter_cons_of_pos (by simpa using h)]
        rfl
    rw [unusedAliases, names_unused.meant_quantified, hown, ← unusedAliases, ← unusedAliases, iha,
      ihb, quantifiers, List.filter_append, List.filter_append, List.map_append, List.map_append,
      List.append_assoc]

/-- **The quantifiers that are reported** because their alias is not used, in order: those of the
condition to which nothing that is seen in their predicate is bound. A quantifier whose alias is used
is not reported, and one whose alias is not used is reported unless a comparison in its predicate takes
a variable of a quantifier further in for one of its own. -/
theorem unusedAliases_check (catalog : Catalog) (e : Expr) :
    (e.quantifiers.map QuantifierNode.expr).Perm (e.nodes.filter fun n => n.alias?.isSome) ∧
      unusedAliases (e.check catalog) =
        (e.quantifiers.filter fun q => ¬q.Sighted).map QuantifierNode.unused ∧
      ∀ q ∈ e.quantifiers, (q.Used → q.Sighted) ∧ (q.Sighted → q.Used ∨ q.Retaken) :=
  ⟨perm_quantifiers e, unusedAliases_checkUnder catalog [] e,
    fun _ _ => ⟨QuantifierNode.Used.sighted, QuantifierNode.Sighted.used_or_retaken⟩⟩

/-- The outer quantifier is not reported, although its alias is not used: the comparison takes the
variable of the inner quantifier for one of the outer. -/
theorem unusedAliases_check_retaken : ∃ e,
    parse "some(items as x, some(items as x, x.done) == null)" 64 = .ok e ∧
      e.check stockCatalog = [] ∧ ∃ q ∈ e.quantifiers, q.expr = e ∧ ¬q.Used := by
  refine ⟨_, rfl, ?_, ?_⟩ <;> decide

end Expr

end Criteria
