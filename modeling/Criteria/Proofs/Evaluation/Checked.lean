import Criteria.Proofs.Condition
import Criteria.Proofs.Evaluation.Interpreter
import Criteria.Proofs.Evaluation.Scopes
import Criteria.Proofs.Expr.Typing

/-!
# Checked conditions on data

What the check of a condition says about its evaluation. A check looks at a node with the aliases
around it, and an evaluation comes to the node with elements under those names
(`Expr.visits_of_everywhere`).

* A collection of the catalog is an array on every payload that agrees with the catalog, unless an
  element around it has an entry of its own at the path of the collection: an element is asked
  before the payload (`Condition.judge_ne_notAnArray`, `Condition.judge_shadowed`).
* A payload is read at the dependencies of the condition, and where an element lacks what the
  condition reads of it under its alias (`Condition.reads_of_judge`, `Condition.judge_lacking`).
-/

namespace Criteria

open Evaluation

/-! ## Nodes and the elements around them -/

namespace Expr

variable {P : List String → Expr → Prop}

/-- **What holds everywhere in a condition holds where an evaluation comes to**, of the names of the
elements around. -/
theorem visits_of_everywhere (payload : Value) (scope : Scope) {e : Expr}
    (h : e.Everywhere P scope.names) :
    ∀ visit ∈ e.visits payload scope, P visit.2.names visit.1 := by
  induction e generalizing scope with
  | literal => exact List.forall_mem_singleton.2 h
  | reference => exact List.forall_mem_singleton.2 h
  | not _ _ _ ih => exact List.forall_mem_cons.2 ⟨h.1, ih scope h.2⟩
  | binary _ _ _ _ _ ihl ihr =>
    exact List.forall_mem_cons.2 ⟨h.1, List.forall_mem_append.2 ⟨ihl scope h.2.1, ihr scope h.2.2⟩⟩
  | quantified _ _ _ _ _ ihc ihp =>
    refine List.forall_mem_cons.2 ⟨h.1, List.forall_mem_append.2 ⟨ihc scope h.2.1, ?_⟩⟩
    exact List.forall_mem_flatMap.2 fun item _ => ihp _ h.2.2

/-- The variables of a node that an evaluation comes to occur in the condition. -/
theorem mentions_of_visits {payload : Value} {e : Expr} {scope : Scope} {path : String} :
    ∀ visit ∈ e.visits payload scope, visit.1.Mentions path → e.Mentions path := by
  induction e generalizing scope with
  | literal => exact List.forall_mem_singleton.2 id
  | reference => exact List.forall_mem_singleton.2 id
  | not _ _ _ ih => exact List.forall_mem_cons.2 ⟨id, ih⟩
  | binary _ _ _ _ _ ihl ihr =>
    refine List.forall_mem_cons.2 ⟨id, List.forall_mem_append.2 ⟨fun visit h hpath => ?_, ?_⟩⟩
    · exact mentions_binary.2 (.inl (ihl visit h hpath))
    · exact fun visit h hpath => mentions_binary.2 (.inr (ihr visit h hpath))
  | quantified _ _ _ _ _ ihc ihp =>
    refine List.forall_mem_cons.2 ⟨id, List.forall_mem_append.2 ⟨fun visit h hpath => ?_, ?_⟩⟩
    · exact mentions_quantified.2 (.inl (ihc visit h hpath))
    · refine List.forall_mem_flatMap.2 fun item _ visit h hpath => ?_
      exact mentions_quantified.2 (.inr (ihp visit h hpath))

/-- Every node of a well-formed condition is well-formed. -/
theorem everywhere_wellFormed {e : Expr} (h : e.WellFormed) (aliases : List String) :
    e.Everywhere (fun _ e => e.WellFormed) aliases := by
  induction e generalizing aliases with
  | literal => exact h
  | reference => exact h
  | not _ _ _ ih => exact ⟨h, ih h aliases⟩
  | binary _ _ _ _ _ iha ihb => exact ⟨h, iha h.1 aliases, ihb h.2 aliases⟩
  | quantified _ _ _ _ _ ihc ihp => exact ⟨h, ihc h.1 aliases, ihp h.2.1 _⟩

end Expr

/-- What an evaluation keeps holds of the reads of a verdict, or the error is one that it may fail
with. -/
theorem Evaluation.Keeps.judge {payload : Value} {I : Trace → Prop} {E : EvaluationError → Prop}
    {e : Expr} (hwell : e.WellFormed) (h : Keeps I E (e.interpret payload [])) (hstart : I .start) :
    match judge e.toLogic payload with
    | .ok verdict => ∃ trace, I trace ∧ verdict.reads = trace.reads
    | .error error => E error := by
  obtain ⟨hkept, hfails⟩ := h Trace.start hstart
  rw [Criteria.judge, eval_toLogic (aliasesKept_of_wellFormed hwell)]
  rcases hrun : (e.interpret payload []).run Trace.start with ⟨error | value, trace⟩
  · rw [hrun] at hfails
    exact hfails error rfl
  · rw [hrun] at hkept
    exact ⟨trace, hkept, rfl⟩

/-! ## Collections -/

namespace Value

/-- A quantifier can range over the value: it is an array, or null or missing and so empty. -/
def isCollection : Value → Bool
  | .missing => true
  | .scalar .null => true
  | .array .. => true
  | _ => false

/-- What stands at the path inside a value, if anything, is a collection. -/
def readsCollection (value : Value) (path : String) : Bool :=
  match value.read path with
  | .ok (some found) => found.isCollection
  | _ => true

theorem isCollection_of_readsCollection {value found : Value} {path : String}
    (h : value.readsCollection path = true) (hread : value.read path = .ok (some found)) :
    found.isCollection = true := by
  rw [readsCollection, hread] at h
  exact h

theorem elements_of_isCollection {value : Value} (h : value.isCollection = true) (q : Quantifier)
    (path : Option String) : ∃ items, elements q path value = .ok items := by
  unfold isCollection at h
  split at h
  · exact ⟨_, rfl⟩
  · exact ⟨_, rfl⟩
  · exact ⟨_, rfl⟩
  · cases h

end Value

namespace Expr

/-- The collection of a quantifier, if it is a variable, is a catalog path that is relative to no
alias around the quantifier. -/
def CollectionDeclared (catalog : Catalog) (aliases : List String) : Expr → Prop
  | .quantified _ (.reference path _) _ _ _ =>
    catalog.contains path = true ∧ ∀ name ∈ aliases, Path.isRelativeTo name path = false
  | _ => True

instance (catalog : Catalog) (aliases : List String) (e : Expr) :
    Decidable (CollectionDeclared catalog aliases e) := by
  unfold CollectionDeclared
  split <;> infer_instance

/-- The variables that are collections of a condition are catalog paths, relative to no alias. -/
def CollectionsDeclared (catalog : Catalog) (e : Expr) : Prop :=
  e.Everywhere (CollectionDeclared catalog) []

instance (catalog : Catalog) (e : Expr) : Decidable (e.CollectionsDeclared catalog) :=
  decideEverywhere e []

/-- No element around a quantifier has an entry of its own at the path of the collection, unless it
is a collection too. -/
def CollectionUnshadowed : Expr × Scope → Prop
  | (.quantified _ (.reference path _) _ _ _, scope) =>
    ∀ frame ∈ scope, frame.value.readsCollection path = true
  | _ => True

instance (visit : Expr × Scope) : Decidable (CollectionUnshadowed visit) := by
  unfold CollectionUnshadowed
  split <;> infer_instance

/-- The elements that a condition ranges over on a payload leave its collections alone. -/
def CollectionsUnshadowed (payload : Value) (e : Expr) : Prop :=
  ∀ visit ∈ e.visits payload [], CollectionUnshadowed visit

instance (payload : Value) (e : Expr) : Decidable (e.CollectionsUnshadowed payload) :=
  inferInstanceAs (Decidable (∀ _ ∈ _, _))

end Expr

namespace Condition

/-- **A checked condition does not fail for a collection that is no array**, on a payload on which
the array variables of the catalog are arrays, null or missing, when its collections are catalog
variables and no element around one of them has something else at its path. -/
theorem judge_ne_notAnArray {text : String} {catalog : Catalog} {limit : Int} {c : Condition}
    (h : parse text catalog limit = .ok c)
    (hdeclared : c.expr.CollectionsDeclared catalog) {payload : Value}
    (hpayload : ∀ d ∈ catalog.definitions, d.type = .array → payload.readsCollection d.path = true)
    (hunshadowed : c.expr.CollectionsUnshadowed payload)
    (q : Quantifier) (path : Option String) (kind : String) :
    judge c.logic payload ≠ .error (.notAnArray q path kind) := by
  obtain ⟨-, e, hparse, hcheck, rfl⟩ := parse_eq_ok_iff.1 h
  have hnumeric : ∀ error : EvaluationError, error.isNumeric = true →
      error ≠ .notAnArray q path kind := by
    rintro _ hnumeric rfl
    cases hnumeric
  have hfindings := Expr.visits_of_everywhere payload [] (Expr.everywhere_findings_eq_nil hcheck)
  have hdeclared := Expr.visits_of_everywhere payload [] hdeclared
  have hkeeps : Keeps (fun _ => True) (· ≠ .notAnArray q path kind) (e.interpret payload []) := by
    refine Expr.interpret_keeps hnumeric fun visit hvisit => ?_
    match visit with
    | (.reference .., _) => exact .readVariable hnumeric fun _ _ _ _ => trivial
    | (.quantified _ collection predicate binder spans, scope) =>
      intro value hvalue error herror
      obtain ⟨p, span, rfl, harray⟩ := Expr.collection_of_findings_eq_nil (hfindings _ hvisit)
      obtain ⟨hcontains, hapart⟩ := hdeclared _ hvisit
      have hcollection : value.isCollection = true := by
        obtain ⟨trace, hrun⟩ := hvalue
        rcases run_readVariable_ok (Prod.ext hrun rfl) with
          ⟨hserved, -⟩ | ⟨-, found, hread, rfl, -⟩
        · -- an element around serves the collection, at the path as it stands
          obtain ⟨frame, hframe, hresolve⟩ := Scope.exists_of_resolve hserved
          rw [Frame.resolve_eq_read] at hresolve
          · exact Value.isCollection_of_readsCollection (hunshadowed _ hvisit frame hframe) hresolve
          · exact fun name hname => hapart name (List.mem_filterMap.2 ⟨frame, hframe, hname⟩)
        · -- the payload serves it, and the check has seen to the type
          cases found with
          | none => rfl
          | some found =>
            obtain ⟨d, hlookup⟩ := Option.isSome_iff_exists.1 hcontains
            obtain ⟨hmem, rfl⟩ := lookup?_path hlookup
            exact Value.isCollection_of_readsCollection (hpayload d hmem (harray d hlookup)) hread
      obtain ⟨items, hitems⟩ := Value.elements_of_isCollection hcollection _ _
      rw [hitems] at herror
      cases herror
    | (.literal .., _) => trivial
    | (.not .., _) => trivial
    | (.binary .., _) => trivial
  have hjudge := hkeeps.judge (Expr.wellFormed_of_parse hparse) trivial
  intro hfails
  rw [ofExpr] at hfails
  simp only at hfails
  rw [hfails] at hjudge
  exact hjudge rfl

/-- A catalog of two arrays. -/
def groupsCatalog : Catalog :=
  ⟨[⟨"items", .array, [.eq, .ne], .null, .null, .null, .null, .null, .null⟩,
    ⟨"groups", .array, [.eq, .ne], .null, .null, .null, .null, .null, .null⟩], by decide⟩

/-- A condition with one collection inside the other. -/
def groupsText : String := "some(items as x, some(groups as y, y == x.id))"

/-- Data with the given items and one group. -/
def groupsPayload (items : List Json) : Value :=
  .ofJson ⟨0, []⟩ (.object [("items", .array items), ("groups", .array [.int 2])])

/-- The JSON-Logic of the condition. -/
def groupsLogic : Json :=
  .object [("some", .array [.object [("var", .string "items")],
    .object [("some", .array [.object [("var", .string "groups")],
      .object [("==", .array [.object [("var", .string "y")], .object [("var", .string "x.id")]])],
      .string "y"])],
    .string "x"])]

theorem exists_parse_groups :
    ∃ c, parse groupsText groupsCatalog 8 = .ok c ∧ c.expr.CollectionsDeclared groupsCatalog ∧
      c.logic = groupsLogic ∧ c.dependencies.map (·.path) = ["items", "groups"] := by
  obtain ⟨c, hc⟩ : ∃ c, parse groupsText groupsCatalog 8 = .ok c := ⟨_, rfl⟩
  refine ⟨c, hc, ?_⟩
  obtain rfl := Except.ok.inj hc
  exact ⟨by decide, rfl, rfl⟩

theorem judge_ne_notAnArray_groups :
    ∃ c, parse groupsText groupsCatalog 8 = .ok c ∧
      ∀ q path kind, judge c.logic (groupsPayload [.object [("id", .int 1)],
        .object [("id", .int 2), ("groups", .array [])]]) ≠ .error (.notAnArray q path kind) := by
  obtain ⟨c, hc, hdeclared, -⟩ := exists_parse_groups
  refine ⟨c, hc, judge_ne_notAnArray hc hdeclared (by decide) ?_⟩
  obtain rfl := Except.ok.inj hc
  decide

/-- An element is asked for the inner collection before the payload, whatever it has there. -/
theorem judge_shadowed :
    ∃ c payload, parse groupsText groupsCatalog 8 = .ok c ∧
      c.expr.CollectionsDeclared groupsCatalog ∧
      (∀ d ∈ groupsCatalog.definitions, d.type = .array →
        payload.readsCollection d.path = true) ∧
      judge c.logic payload = .error (.notAnArray .any (some "groups") "number") := by
  obtain ⟨c, hc, hdeclared, hlogic, -⟩ := exists_parse_groups
  refine ⟨c, groupsPayload [.object [("groups", .int 5)]], hc, hdeclared, by decide, ?_⟩
  rw [hlogic]
  rfl

end Condition

/-! ## Reads -/

theorem Trace.forall_reads_note {P : String × Value → Prop} {trace : Trace} {path : String}
    {value : Value} (htrace : ∀ read ∈ trace.reads, P read) (hread : P (path, value)) :
    ∀ read ∈ (trace.note path value).reads, P read := by
  rw [reads_note]
  split
  · exact htrace
  · exact List.forall_mem_append.2 ⟨htrace, List.forall_mem_singleton.2 hread⟩

namespace Expr

/-- Where the condition stands on a payload, the path is a variable that an element around it
lacks. -/
def LacksSomewhere (payload : Value) (e : Expr) (path : String) : Prop :=
  ∃ span scope, (.reference path span, scope) ∈ e.visits payload [] ∧
    ∃ frame ∈ scope, frame.Lacks path

end Expr

namespace Condition

/-- **A checked condition reads its dependencies from the payload, and what elements lack**: a
variable that continues an alias is looked for in the payload when the element under the alias does
not have it. -/
theorem reads_of_judge {text : String} {catalog : Catalog} {limit : Int} {c : Condition}
    (h : parse text catalog limit = .ok c) {payload : Value} {verdict : Verdict}
    (hjudge : judge c.logic payload = .ok verdict) :
    ∀ read ∈ verdict.reads,
      (∃ d ∈ c.dependencies, d.path = read.1) ∨ c.expr.LacksSomewhere payload read.1 := by
  obtain ⟨-, e, hparse, hcheck, rfl⟩ := parse_eq_ok_iff.1 h
  have hwell := Expr.wellFormed_of_parse hparse
  have hvisits := Expr.visits_of_everywhere payload [] (Expr.everywhere_wellFormed hwell [])
  have hknown := Expr.visits_of_everywhere payload [] (Expr.known_of_findings_eq_nil hcheck)
  let I : Trace → Prop := fun trace => ∀ read ∈ trace.reads,
    (∃ d ∈ catalog.definitionsUnder e, d.path = read.1) ∨ e.LacksSomewhere payload read.1
  have hkeeps : Keeps I (fun _ => True) (e.interpret payload []) := by
    refine Expr.interpret_keeps (fun _ _ => trivial) fun visit hvisit => ?_
    match visit with
    | (.reference path span, scope) =>
      refine .readVariable (fun _ _ => trivial) fun hresolve value trace htrace => ?_
      refine Trace.forall_reads_note htrace ?_
      rcases hknown _ hvisit with ⟨name, hname, hrelative⟩ | hcontains
      · -- an alias binds the variable, and the element under it was asked
        obtain ⟨frame, hframe, hframename⟩ := List.mem_filterMap.1 hname
        have hne := Path.ne_empty_of_isRelativeTo (hvisits _ hvisit) hrelative
        exact .inr ⟨span, scope, hvisit, frame, hframe, Frame.lacks_of_resolve hframename hne
          hrelative (Scope.resolve_eq_none_iff.1 hresolve frame hframe)⟩
      · obtain ⟨d, hlookup⟩ := Option.isSome_iff_exists.1 hcontains
        have hmentions : e.Mentions path :=
          Expr.mentions_of_visits _ hvisit ⟨span, List.mem_singleton.2 rfl⟩
        exact .inl ⟨d, mem_definitionsUnder.2 ⟨path, hmentions, hlookup⟩, (lookup?_path hlookup).2⟩
    | (.quantified .., _) => exact fun _ _ _ _ => trivial
    | (.literal .., _) => trivial
    | (.not .., _) => trivial
    | (.binary .., _) => trivial
  have hkept := hkeeps.judge hwell (List.forall_mem_nil _)
  rw [ofExpr] at hjudge
  simp only at hjudge
  rw [hjudge] at hkept
  obtain ⟨trace, htrace, hreads⟩ := hkept
  rw [hreads]
  exact htrace

theorem reads_of_judge_groups :
    ∃ c verdict, parse groupsText groupsCatalog 8 = .ok c ∧
      judge c.logic (groupsPayload [.object [], .object [("id", .int 2)]]) = .ok verdict ∧
      verdict.reads.length = 3 ∧ ∀ read ∈ verdict.reads, (∃ d ∈ c.dependencies, d.path = read.1) ∨
        c.expr.LacksSomewhere (groupsPayload [.object [], .object [("id", .int 2)]]) read.1 := by
  obtain ⟨c, hc, -, hlogic, -⟩ := exists_parse_groups
  obtain ⟨verdict, hverdict, hlength⟩ : ∃ verdict, judge groupsLogic
      (groupsPayload [.object [], .object [("id", .int 2)]]) = .ok verdict ∧
        verdict.reads.length = 3 := ⟨_, rfl, rfl⟩
  rw [← hlogic] at hverdict
  exact ⟨c, verdict, hc, hverdict, hlength, reads_of_judge hc hverdict⟩

/-- A field that an element lacks is looked for in the payload, under the alias. -/
theorem judge_lacking :
    ∃ c verdict, parse groupsText groupsCatalog 8 = .ok c ∧
      judge c.logic (groupsPayload [.object []]) = .ok verdict ∧
      verdict.reads.map (·.1) = ["items", "groups", "x.id"] ∧
      c.dependencies.map (·.path) = ["items", "groups"] := by
  obtain ⟨c, hc, -, hlogic, hdependencies⟩ := exists_parse_groups
  obtain ⟨verdict, hverdict, hreads⟩ : ∃ verdict, judge groupsLogic (groupsPayload [.object []]) =
      .ok verdict ∧ verdict.reads.map (·.1) = ["items", "groups", "x.id"] := ⟨_, rfl, rfl⟩
  rw [← hlogic] at hverdict
  exact ⟨c, verdict, hc, hverdict, hreads, hdependencies⟩

end Condition

end Criteria
