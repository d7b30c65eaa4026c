import Criteria.Check
import Criteria.Proofs.Expr.RoundTrip
import Criteria.Proofs.Path

/-!
# Conditions that a catalog allows

`Expr.WellTyped catalog e` says what a catalog asks of a condition, node by node and without regard
to how it is checked:

* a variable is relative to an alias in whose predicate it stands, or a catalog path;
* a comparison is allowed for all catalog variables under it, its literal operand fits those under
  the other operand, and those under its two operands have the same type;
* the collection of a quantifier is a variable, of an array type if it is a catalog path, and its
  predicate mentions its alias.

The check decides it for every condition read from text (`Expr.check_eq_nil_iff`), as long as paths
and aliases cannot be confused (`Expr.Hygienic`): no catalog path is relative to an alias, and no
alias is used again inside its own predicate. Where they can be, an occurrence of an inner alias may
pass for one of an outer.
-/

namespace Criteria

/-! ## Paths that are relative to an alias -/

namespace Path

/-- A variable is relative to no empty name. -/
theorem ne_empty_of_isRelativeTo {name path : String} (hpath : IsVariable path)
    (h : isRelativeTo name path = true) : name ≠ "" := by
  rintro rfl
  obtain ⟨⟨⟨first, rest, hcs, hfirst, -⟩, -⟩, -⟩ := hpath
  rcases isRelativeTo_iff.1 h with rfl | ⟨more, hmore⟩
  · cases hcs
  · rw [hcs] at hmore
    cases hmore
    exact absurd hfirst (by decide)

end Path

/-! ## The typing judgement -/

/-- A literal may be compared with variables of a type: `null` with every variable, another literal
with the variables of its own kind. -/
def Scalar.Fits : Scalar → VariableType → Prop
  | .null, _ => True
  | .bool _, .boolean => True
  | .int _, .number => True
  | .double _, .number => True
  | .string _, .string => True
  | _, _ => False

theorem allowsKind_iff (value : Scalar) (type : VariableType) :
    type.allowsKind value.kind = true ↔ value.Fits type := by
  cases value <;> cases type <;> simp [VariableType.allowsKind, Scalar.kind, Scalar.Fits,
    VariableType.name]

namespace Expr

/-- The path occurs in the condition. -/
def Mentions (e : Expr) (path : String) : Prop := ∃ span, (path, span) ∈ e.references

/-- A property holds of every node of a condition, with the aliases of the quantifiers in whose
predicates the node stands, innermost first. -/
def Everywhere (P : List String → Expr → Prop) (aliases : List String) : Expr → Prop
  | .literal value span => P aliases (.literal value span)
  | .reference path span => P aliases (.reference path span)
  | .not argument span operatorSpan =>
    P aliases (.not argument span operatorSpan) ∧ argument.Everywhere P aliases
  | .binary op left right span operatorSpan =>
    P aliases (.binary op left right span operatorSpan) ∧
      left.Everywhere P aliases ∧ right.Everywhere P aliases
  | .quantified q collection predicate binder spans =>
    P aliases (.quantified q collection predicate binder spans) ∧
      collection.Everywhere P aliases ∧ predicate.Everywhere P (binder.name :: aliases)

theorem Everywhere.mono {P Q : List String → Expr → Prop} {aliases : List String} {e : Expr}
    (hPQ : ∀ aliases e, P aliases e → Q aliases e) (h : e.Everywhere P aliases) :
    e.Everywhere Q aliases := by
  induction e generalizing aliases with
  | literal => exact hPQ _ _ h
  | reference => exact hPQ _ _ h
  | not _ _ _ ih => exact ⟨hPQ _ _ h.1, ih h.2⟩
  | binary _ _ _ _ _ iha ihb => exact ⟨hPQ _ _ h.1, iha h.2.1, ihb h.2.2⟩
  | quantified _ _ _ _ _ ihc ihp => exact ⟨hPQ _ _ h.1, ihc h.2.1, ihp h.2.2⟩

/-- Whether a property holds everywhere. -/
def decideEverywhere {P : List String → Expr → Prop} [∀ aliases e, Decidable (P aliases e)] :
    (e : Expr) → (aliases : List String) → Decidable (e.Everywhere P aliases)
  | .literal value span, aliases => inferInstanceAs (Decidable (P aliases (.literal value span)))
  | .reference path span, aliases => inferInstanceAs (Decidable (P aliases (.reference path span)))
  | .not argument _ _, aliases =>
    have := argument.decideEverywhere (P := P) aliases
    inferInstanceAs (Decidable (P aliases _ ∧ argument.Everywhere P aliases))
  | .binary _ left right _ _, aliases =>
    have := left.decideEverywhere (P := P) aliases
    have := right.decideEverywhere (P := P) aliases
    inferInstanceAs
      (Decidable (P aliases _ ∧ left.Everywhere P aliases ∧ right.Everywhere P aliases))
  | .quantified _ collection predicate binder _, aliases =>
    have := collection.decideEverywhere (P := P) aliases
    have := predicate.decideEverywhere (P := P) (binder.name :: aliases)
    inferInstanceAs (Decidable (P aliases _ ∧ collection.Everywhere P aliases ∧
      predicate.Everywhere P (binder.name :: aliases)))

end Expr

namespace Catalog

/-- Inside quantifiers with the given aliases the path means something: it is relative to one of them
or a catalog path. -/
def Knows (catalog : Catalog) (aliases : List String) (path : String) : Prop :=
  (∃ name ∈ aliases, Path.isRelativeTo name path = true) ∨ catalog.contains path = true

/-- The definition is that of a catalog variable that occurs in the expression. -/
def Under (catalog : Catalog) (e : Expr) (d : Definition) : Prop :=
  ∃ path, e.Mentions path ∧ catalog.lookup? path = some d

/-- What a catalog asks of a comparison. -/
structure AllowsComparison (catalog : Catalog) (c : Comparison) (left right : Expr) : Prop where
  operator : ∀ d, catalog.Under left d ∨ catalog.Under right d → c ∈ d.comparisons
  literal_right : ∀ value span, right = .literal value span →
    ∀ d, catalog.Under left d → value.Fits d.type
  literal_left : ∀ value span, left = .literal value span →
    ∀ d, catalog.Under right d → value.Fits d.type
  types : ∀ l r, catalog.Under left l → catalog.Under right r → l.type = r.type

/-- What a catalog asks of a quantifier. -/
structure AllowsQuantifier (catalog : Catalog) (collection predicate : Expr) (name : String) :
    Prop where
  collection : ∃ path span, collection = .reference path span ∧
    ∀ d, catalog.lookup? path = some d → d.type = .array
  mentioned : ∃ path, predicate.Mentions path ∧ Path.isRelativeTo name path = true

end Catalog

namespace Expr

/-- What a catalog asks of one node inside quantifiers with the given aliases. -/
def Allowed (catalog : Catalog) (aliases : List String) : Expr → Prop
  | .reference path _ => catalog.Knows aliases path
  | .binary (.compare c) left right _ _ => catalog.AllowsComparison c left right
  | .quantified _ collection predicate binder _ =>
    catalog.AllowsQuantifier collection predicate binder.name
  | _ => True

/-- **What a catalog asks of a condition.** -/
def WellTyped (catalog : Catalog) (e : Expr) : Prop := e.Everywhere (Allowed catalog) []

/-- The alias of a quantifier cannot be confused: no catalog path is relative to it, and it is none
of the aliases around it. -/
def Unconfused (catalog : Catalog) (aliases : List String) : Expr → Prop
  | .quantified _ _ _ binder _ =>
    (∀ d ∈ catalog.definitions, Path.isRelativeTo binder.name d.path = false) ∧
      binder.name ∉ aliases
  | _ => True

instance (catalog : Catalog) (aliases : List String) (e : Expr) :
    Decidable (Unconfused catalog aliases e) :=
  match e with
  | .literal .. => .isTrue trivial
  | .reference .. => .isTrue trivial
  | .not .. => .isTrue trivial
  | .binary .. => .isTrue trivial
  | .quantified .. => inferInstanceAs (Decidable ((∀ _ ∈ _, _) ∧ _))

/-- No alias of the condition can be confused. -/
def Hygienic (catalog : Catalog) (e : Expr) : Prop := e.Everywhere (Unconfused catalog) []

instance (catalog : Catalog) (e : Expr) : Decidable (e.Hygienic catalog) :=
  decideEverywhere e []

end Expr

/-! ## The findings at one node -/

theorem lookup?_path {catalog : Catalog} {path : String} {d : Definition}
    (h : catalog.lookup? path = some d) : d ∈ catalog.definitions ∧ d.path = path := by
  refine ⟨List.mem_of_find?_eq_some h, ?_⟩
  simpa using List.find?_some h

/-- The definitions under an expression are those of the catalog variables that occur in it. -/
theorem mem_definitionsUnder {catalog : Catalog} {e : Expr} {d : Definition} :
    d ∈ catalog.definitionsUnder e ↔ catalog.Under e d := by
  unfold Catalog.definitionsUnder Catalog.Under
  constructor
  · intro h
    obtain ⟨⟨path, span⟩, hmem, hlookup⟩ :=
      List.mem_filterMap.1 ((firstsBy_sublist _ _).subset h)
    exact ⟨path, ⟨span, hmem⟩, hlookup⟩
  · rintro ⟨path, ⟨span, hmem⟩, hlookup⟩
    have hitem : d ∈ e.references.filterMap fun occurrence => catalog.lookup? occurrence.1 :=
      List.mem_filterMap.2 ⟨(path, span), hmem, hlookup⟩
    -- the first item with this path is the definition itself, as both are looked up by the path
    obtain ⟨d', hfind⟩ : ∃ d', (e.references.filterMap fun occurrence =>
        catalog.lookup? occurrence.1).find? (·.path = d.path) = some d' :=
      Option.isSome_iff_exists.1 (List.find?_isSome.2 ⟨d, hitem, by simp⟩)
    obtain ⟨⟨path', span'⟩, -, hlookup'⟩ := List.mem_filterMap.1 (List.mem_of_find?_eq_some hfind)
    have hpath : d'.path = d.path := by simpa using List.find?_some hfind
    have hsame : path' = path :=
      (lookup?_path hlookup').2.symm.trans (hpath.trans (lookup?_path hlookup).2)
    have hlookup' : catalog.lookup? path' = some d' := hlookup'
    rw [hsame, hlookup, Option.some.injEq] at hlookup'
    subst hlookup'
    rw [← find?_firstsBy] at hfind
    exact List.mem_of_find?_eq_some hfind

namespace Expr

variable {catalog : Catalog} {aliases : List String}

theorem bindingLevel?_eq_none {path : String} :
    bindingLevel? path aliases = none ↔ ∀ name ∈ aliases, Path.isRelativeTo name path = false := by
  induction aliases with
  | nil => simp [bindingLevel?]
  | cons name outer ih =>
    rw [bindingLevel?, List.forall_mem_cons, ← ih]
    cases Path.isRelativeTo name path <;> simp

theorem bindingLevel?_lt {path : String} {level : Nat}
    (h : bindingLevel? path aliases = some level) : level < aliases.length := by
  induction aliases with
  | nil => cases h
  | cons name outer ih =>
    rw [bindingLevel?] at h
    split at h
    · cases h
      exact Nat.lt_succ_self _
    · exact Nat.lt_succ_of_lt (ih h)

theorem operatorFindings_eq_nil (c : Comparison) (e : Expr) (span : Option Span)
    (h : ∀ path d, catalog.lookup? path = some d → bindingLevel? path aliases = none) :
    operatorFindings catalog aliases c e span = [] ↔
      ∀ d, catalog.Under e d → c ∈ d.comparisons := by
  rw [operatorFindings, List.filterMap_eq_nil_iff]
  constructor
  · rintro hall d ⟨path, ⟨s, hmem⟩, hlookup⟩
    have hnone := hall (path, s) hmem
    simp only [h path d hlookup, hlookup] at hnone
    split at hnone
    · rename_i hcontains
      exact List.contains_iff_mem.1 hcontains
    · cases hnone
  · rintro hall ⟨path, s⟩ hmem
    simp only
    split
    · rename_i d _ hlookup
      rw [if_pos (List.contains_iff_mem.2 (hall d ⟨path, ⟨s, hmem⟩, hlookup⟩))]
    · rfl

theorem literalFindings_eq_nil {side e : Expr} {others : List Definition} :
    literalFindings side others e = [] ↔
      ∀ value span, side = .literal value span → ∀ d ∈ others, value.Fits d.type := by
  cases side with
  | literal value span =>
    rw [literalFindings, List.filterMap_eq_nil_iff]
    constructor
    · rintro hall _ _ ⟨⟩ d hd
      have hnone := hall d hd
      split at hnone
      · exact (allowsKind_iff _ _).1 ‹_›
      · cases hnone
    · intro hall d hd
      rw [if_pos ((allowsKind_iff _ _).2 (hall value span rfl d hd))]
  | _ => simp [literalFindings]

theorem variableFindings_eq_nil {c : Comparison} {lefts rights : List Definition} {e : Expr}
    {span : Option Span} :
    variableFindings c lefts rights e span = [] ↔
      ∀ l ∈ lefts, ∀ r ∈ rights, l.type = r.type := by
  simp only [variableFindings, List.map_eq_nil_iff, firstsBy_eq_nil, List.flatMap_eq_nil_iff,
    List.filterMap_eq_nil_iff]
  refine forall₂_congr fun l _ => forall₂_congr fun r _ => ?_
  split
  · rename_i htype
    exact iff_of_true rfl htype
  · rename_i htype
    exact iff_of_false (Option.some_ne_none _) htype

theorem collectionFindings_eq_nil {q : Quantifier} {collection e : Expr} :
    collectionFindings catalog q collection e = [] ↔
      ∃ path span, collection = .reference path span ∧
        ∀ d, catalog.lookup? path = some d → d.type = .array := by
  cases collection with
  | reference path span =>
    simp only [collectionFindings]
    cases hlookup : catalog.lookup? path with
    | none => simp [hlookup]
    | some d =>
      by_cases htype : d.type = .array <;> simp [hlookup, htype]
  | _ => simp [collectionFindings]

/-! ## The check -/

theorem mentions_binary {op : BinaryOp} {a b : Expr} {s t : Option Span} {path : String} :
    (binary op a b s t).Mentions path ↔ a.Mentions path ∨ b.Mentions path := by
  simp only [Mentions, references, List.mem_append, exists_or]

theorem mentions_quantified {q : Quantifier} {a b : Expr} {binder : Alias} {s : QuantifierSpans}
    {path : String} :
    (quantified q a b binder s).Mentions path ↔ a.Mentions path ∨ b.Mentions path := by
  simp only [Mentions, references, List.mem_append, exists_or]

theorem under_binary {op : BinaryOp} {a b : Expr} {s t : Option Span} {d : Definition} :
    catalog.Under (binary op a b s t) d ↔ catalog.Under a d ∨ catalog.Under b d := by
  simp only [Catalog.Under, mentions_binary, or_and_right, exists_or]

theorem used_append (a b : Report) : (a ++ b).used = a.used ++ b.used := rfl

theorem findings_append (a b : Report) : (a ++ b).findings = a.findings ++ b.findings := rfl

/-- The aliases around a node: names without points, to which no catalog path is relative. -/
def Surroundings (catalog : Catalog) (aliases : List String) : Prop :=
  ∀ name ∈ aliases, '.' ∉ name.toList ∧
    ∀ d ∈ catalog.definitions, Path.isRelativeTo name d.path = false

theorem Surroundings.cons {binder : Alias} (h : Surroundings catalog aliases)
    (hwell : binder.WellFormed)
    (hapart : ∀ d ∈ catalog.definitions, Path.isRelativeTo binder.name d.path = false) :
    Surroundings catalog (binder.name :: aliases) :=
  List.forall_mem_cons.2 ⟨⟨hwell.2.1, hapart⟩, h⟩

/-- No alias binds a catalog path. -/
theorem Surroundings.bindingLevel?_eq_none (h : Surroundings catalog aliases) {path : String}
    {d : Definition} (hlookup : catalog.lookup? path = some d) :
    bindingLevel? path aliases = none := by
  obtain ⟨hmem, rfl⟩ := lookup?_path hlookup
  exact Expr.bindingLevel?_eq_none.2 fun name hname => (h name hname).2 d hmem

/-- A path relative to a new alias is bound by no alias around it. -/
theorem Surroundings.bindingLevel?_of_isRelativeTo (h : Surroundings catalog aliases)
    {name path : String} (hdot : '.' ∉ name.toList) (hfresh : name ∉ aliases)
    (hrelative : Path.isRelativeTo name path = true) : bindingLevel? path aliases = none := by
  refine Expr.bindingLevel?_eq_none.2 fun outer houter => ?_
  rw [Bool.eq_false_iff]
  intro hrelative'
  rw [Path.eq_of_isRelativeTo hdot (h outer houter).1 hrelative hrelative'] at hfresh
  exact hfresh houter

/-- **The levels marked as used are those of the aliases that bind a path in the expression.** -/
theorem mem_used_iff {e : Expr} (hwell : e.WellFormed) (haliases : Surroundings catalog aliases)
    (h : e.Everywhere (Unconfused catalog) aliases) {level : Nat} :
    level ∈ (checkUnder catalog aliases e).used ↔
      ∃ path, e.Mentions path ∧ bindingLevel? path aliases = some level := by
  induction e generalizing aliases level with
  | literal => simp [checkUnder, Report.empty, Mentions, references]
  | reference path span =>
    have hmentions : ∀ p, (reference path span).Mentions p ↔ p = path := fun p => by
      simp [Mentions, references]
    simp only [hmentions, exists_eq_left]
    rw [checkUnder]
    cases hlevel : bindingLevel? path aliases with
    | some l => simp [eq_comm]
    | none =>
      simp only
      split <;> simp [Report.empty]
  | not a _ _ ih => exact ih hwell haliases h.2
  | binary op a b s t iha ihb =>
    have hboth : level ∈ (checkUnder catalog aliases a ++ checkUnder catalog aliases b).used ↔
        ∃ path, (binary op a b s t).Mentions path ∧ bindingLevel? path aliases = some level := by
      rw [used_append, List.mem_append, iha hwell.1 haliases h.2.1, ihb hwell.2 haliases h.2.2]
      simp only [mentions_binary, or_and_right, exists_or]
    cases op with
    | logical => exact hboth
    | compare =>
      rw [checkUnder, used_append, List.mem_append, hboth]
      -- the comparison marks the paths under it once more
      refine or_iff_left_of_imp fun hagain => ?_
      obtain ⟨⟨path, span⟩, hmem, hlevel⟩ := List.mem_filterMap.1 hagain
      exact ⟨path, ⟨span, hmem⟩, hlevel⟩
  | quantified q collection predicate binder spans ihc ihp =>
    obtain ⟨⟨hapart, hfresh⟩, hcollection, hpredicate⟩ := h
    have hinside := haliases.cons hwell.2.2 hapart
    rw [checkUnder, used_append, List.mem_append, ihc hwell.1 haliases hcollection]
    simp only [mentions_quantified, or_and_right, exists_or, List.mem_filter,
      ihp hwell.2.1 hinside hpredicate]
    refine or_congr Iff.rfl ?_
    constructor
    · rintro ⟨⟨path, hpath, hlevel⟩, hother⟩
      rw [bindingLevel?] at hlevel
      split at hlevel
      · cases hlevel
        simp at hother
      · exact ⟨path, hpath, hlevel⟩
    · rintro ⟨path, hpath, hlevel⟩
      have hrelative : Path.isRelativeTo binder.name path = false := by
        rw [Bool.eq_false_iff]
        intro hrelative
        rw [haliases.bindingLevel?_of_isRelativeTo hwell.2.2.2.1 hfresh hrelative] at hlevel
        cases hlevel
      refine ⟨⟨path, hpath, ?_⟩, ?_⟩
      · rw [bindingLevel?, hrelative]
        exact hlevel
      · have hlt := bindingLevel?_lt hlevel
        simp only [ne_eq, decide_not, Bool.not_eq_eq_eq_not, Bool.not_true, decide_eq_false_iff_not]
        omega

/-- The alias of a quantifier is marked as used when its predicate mentions it. -/
theorem contains_used_iff {predicate : Expr} {binder : Alias} (hwell : predicate.WellFormed)
    (hbinder : binder.WellFormed) (haliases : Surroundings catalog aliases)
    (hapart : ∀ d ∈ catalog.definitions, Path.isRelativeTo binder.name d.path = false)
    (h : predicate.Everywhere (Unconfused catalog) (binder.name :: aliases)) :
    (checkUnder catalog (binder.name :: aliases) predicate).used.contains aliases.length = true ↔
      ∃ path, predicate.Mentions path ∧ Path.isRelativeTo binder.name path = true := by
  rw [List.contains_iff_mem, mem_used_iff hwell (haliases.cons hbinder hapart) h]
  refine exists_congr fun path => and_congr_right fun _ => ?_
  rw [bindingLevel?]
  split
  · rename_i hrelative
    exact iff_of_true rfl hrelative
  · rename_i hrelative
    refine iff_of_false (fun hlevel => ?_) hrelative
    exact Nat.lt_irrefl _ (bindingLevel?_lt hlevel)

/-- A variable is found fault with when its path means nothing. -/
theorem findings_reference_eq_nil {path : String} {span : Option Span} :
    (checkUnder catalog aliases (.reference path span)).findings = [] ↔
      catalog.Knows aliases path := by
  rw [checkUnder, Catalog.Knows]
  cases hlevel : bindingLevel? path aliases with
  | some level =>
    refine iff_of_true rfl (.inl ?_)
    by_contra hnone
    simp only [not_exists, not_and, Bool.not_eq_true] at hnone
    rw [bindingLevel?_eq_none.2 hnone] at hlevel
    cases hlevel
  | none =>
    have hunbound : ¬∃ name ∈ aliases, Path.isRelativeTo name path = true := by
      rintro ⟨name, hname, hrelative⟩
      rw [bindingLevel?_eq_none.1 hlevel name hname] at hrelative
      cases hrelative
    rw [or_iff_right hunbound]
    simp only
    split
    · rename_i hcontains
      exact iff_of_true rfl hcontains
    · rename_i hcontains
      exact iff_of_false (List.cons_ne_nil _ _) hcontains

/-- The variable at a node, if it is one, means something. -/
def Known (catalog : Catalog) (aliases : List String) : Expr → Prop
  | .reference path _ => catalog.Knows aliases path
  | _ => True

/-- **Where the check finds nothing in a condition, it finds nothing in any node**, whatever the
aliases. -/
theorem everywhere_findings_eq_nil {e : Expr} (h : (checkUnder catalog aliases e).findings = []) :
    e.Everywhere (fun aliases e => (checkUnder catalog aliases e).findings = []) aliases := by
  induction e generalizing aliases with
  | literal => exact h
  | reference => exact h
  | not _ _ _ ih => exact ⟨h, ih h⟩
  | binary op a b s t iha ihb =>
    have hboth : (checkUnder catalog aliases a ++ checkUnder catalog aliases b).findings = [] := by
      cases op with
      | logical => exact h
      | compare =>
        rw [checkUnder, findings_append, List.append_eq_nil_iff] at h
        exact h.1
    rw [findings_append, List.append_eq_nil_iff] at hboth
    exact ⟨h, iha hboth.1, ihb hboth.2⟩
  | quantified q collection predicate binder spans ihc ihp =>
    have hparts := h
    simp only [checkUnder, findings_append, List.append_eq_nil_iff] at hparts
    exact ⟨h, ihc hparts.1, ihp hparts.2.1.2⟩

/-- Every variable means something where the check finds nothing. -/
theorem known_of_findings_eq_nil {e : Expr} (h : (checkUnder catalog aliases e).findings = []) :
    e.Everywhere (Known catalog) aliases := by
  refine (everywhere_findings_eq_nil h).mono fun aliases e hnode => ?_
  cases e with
  | reference => exact findings_reference_eq_nil.1 hnode
  | _ => trivial

/-- The collection of a quantifier is a variable where the check finds nothing, and an array if it is
a catalog path. -/
theorem collection_of_findings_eq_nil {q : Quantifier} {collection predicate : Expr}
    {binder : Alias} {spans : QuantifierSpans}
    (h : (checkUnder catalog aliases (.quantified q collection predicate binder spans)).findings =
      []) :
    ∃ path span, collection = .reference path span ∧
      ∀ d, catalog.lookup? path = some d → d.type = .array := by
  simp only [checkUnder, findings_append, List.append_eq_nil_iff] at h
  exact collectionFindings_eq_nil.1 h.2.1.1

/-- A comparison is found fault with when an operand is or the catalog does not allow it. -/
theorem findings_compare_eq_nil {c : Comparison} {a b : Expr} {s t : Option Span}
    (haliases : Surroundings catalog aliases) :
    (checkUnder catalog aliases (.binary (.compare c) a b s t)).findings = [] ↔
      ((checkUnder catalog aliases a).findings = [] ∧
        (checkUnder catalog aliases b).findings = []) ∧ catalog.AllowsComparison c a b := by
  have hoperator := operatorFindings_eq_nil c (.binary (.compare c) a b s t) t
    fun _ _ hlookup => haliases.bindingLevel?_eq_none hlookup
  simp only [checkUnder, findings_append, List.append_eq_nil_iff, hoperator,
    literalFindings_eq_nil, variableFindings_eq_nil, mem_definitionsUnder, under_binary]
  refine and_congr_right fun _ => ⟨?_, ?_⟩
  · rintro ⟨⟨⟨hoperators, hright⟩, hleft⟩, htypes⟩
    exact ⟨hoperators, hright, hleft, fun l r hl hr => htypes l hl r hr⟩
  · rintro ⟨hoperators, hright, hleft, htypes⟩
    exact ⟨⟨⟨hoperators, hright⟩, hleft⟩, fun l hl r hr => htypes l r hl hr⟩

/-- **The check finds nothing exactly when every node is allowed.** -/
theorem findings_eq_nil_iff {e : Expr} (hwell : e.WellFormed)
    (haliases : Surroundings catalog aliases) (h : e.Everywhere (Unconfused catalog) aliases) :
    (checkUnder catalog aliases e).findings = [] ↔ e.Everywhere (Allowed catalog) aliases := by
  induction e generalizing aliases with
  | literal => exact iff_of_true rfl trivial
  | reference path span => exact findings_reference_eq_nil
  | not a _ _ ih => exact (ih hwell haliases h.2).trans (and_iff_right trivial).symm
  | binary op a b s t iha ihb =>
    rw [Everywhere, ← iha hwell.1 haliases h.2.1, ← ihb hwell.2 haliases h.2.2]
    cases op with
    | logical =>
      rw [checkUnder, findings_append, List.append_eq_nil_iff]
      exact (and_iff_right trivial).symm
    | compare c => exact (findings_compare_eq_nil haliases).trans and_comm
  | quantified q collection predicate binder spans ihc ihp =>
    obtain ⟨⟨hapart, hfresh⟩, hcollection, hpredicate⟩ := h
    have hinside := haliases.cons hwell.2.2 hapart
    have hused := contains_used_iff hwell.2.1 hwell.2.2 haliases hapart hpredicate
    rw [Everywhere, ← ihc hwell.1 haliases hcollection, ← ihp hwell.2.1 hinside hpredicate,
      checkUnder, findings_append]
    simp only [List.append_eq_nil_iff, collectionFindings_eq_nil, ite_eq_left_iff, hused,
      reduceCtorEq, imp_false, not_not]
    constructor
    · rintro ⟨houter, ⟨hvariable, hinner⟩, hmentioned⟩
      exact ⟨⟨hvariable, hmentioned⟩, houter, hinner⟩
    · rintro ⟨⟨hvariable, hmentioned⟩, houter, hinner⟩
      exact ⟨houter, ⟨hvariable, hinner⟩, hmentioned⟩

/-- **The check decides the typing judgement** for conditions read from text whose aliases cannot be
confused. -/
theorem check_eq_nil_iff {text : String} {limit : Int} {e : Expr} (hparse : parse text limit = .ok e)
    (catalog : Catalog) (h : e.Hygienic catalog) : e.check catalog = [] ↔ e.WellTyped catalog :=
  findings_eq_nil_iff (wellFormed_of_parse hparse) (fun _ hname => nomatch hname) h

/-- A catalog of an array, a number and a string. -/
def stockCatalog : Catalog :=
  ⟨[⟨"items", .array, [.eq, .ne], .null, .null, .null, .null, .null, .null⟩,
    ⟨"threshold", .number, Comparison.all, .null, .null, .null, .null, .null, .null⟩,
    ⟨"status", .string, [.eq, .ne], .null, .null, .null, .null, .null, .null⟩], by decide⟩

theorem check_eq_nil_iff_stock :
    ∃ e, parse "some(items as x, x.level >= threshold && !(status == null))" 4 = .ok e ∧
      e.Hygienic stockCatalog ∧ e.WellTyped stockCatalog := by
  obtain ⟨e, he⟩ : ∃ e, parse "some(items as x, x.level >= threshold && !(status == null))" 4 =
      .ok e := ⟨_, rfl⟩
  have hhygienic : e.Hygienic stockCatalog := by
    obtain rfl := Except.ok.inj he
    decide
  have hcheck : e.check stockCatalog = [] := by
    obtain rfl := Except.ok.inj he
    decide
  exact ⟨e, he, hhygienic, (check_eq_nil_iff he stockCatalog hhygienic).1 hcheck⟩

end Expr

end Criteria
