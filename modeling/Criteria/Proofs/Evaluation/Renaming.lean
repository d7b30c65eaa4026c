import Criteria.Proofs.Evaluation.Checked
import Criteria.Proofs.Expr.Renaming

/-!
# Renaming an alias and the data

A condition with another name for one of its aliases has the same truth, the same failure and the
same reads, as long as a variable that is relative to the alias means something by the element it is
bound to only (`Condition.evaluateOn_renameAlias`). A variable that its element lacks is looked for
in the elements around and in the payload, under its spelling with the alias; there the name of the
alias is a key like any other (`Condition.evaluateOn_renameAlias_served`).
-/

namespace Criteria

open Evaluation

/-! ## Paths told by another name -/

/-- The failure, told with other paths. -/
def EvaluationError.mapPath (f : String → String) : EvaluationError → EvaluationError
  | .notAnArray q path kind => .notAnArray q (path.map f) kind
  | error => error

theorem EvaluationError.mapPath_of_isNumeric {error : EvaluationError} (f : String → String)
    (h : error.isNumeric = true) : error.mapPath f = error := by
  cases error with
  | notAnArray => cases h
  | _ => rfl

/-- The failure of a condition, told with other paths. -/
def ConditionFailure.mapPath (f : String → String) : ConditionFailure → ConditionFailure
  | .failed error => .failed (error.mapPath f)
  | .tooDeep => .tooDeep

/-- Reads of other paths; a path that is read already is not read again. -/
def mapReads (f : String → String) (reads : List (String × Value)) : List (String × Value) :=
  firstsBy Prod.fst (reads.map (Prod.map f id))

/-- The verdict, told with other paths. -/
def Verdict.mapPaths (f : String → String) (verdict : Verdict) : Verdict :=
  ⟨verdict.holds, mapReads f verdict.reads⟩

/-- A read noted in both traces, under the two paths. -/
theorem note_mapReads {f : String → String} {s t : Trace} (h : s.reads = mapReads f t.reads)
    (path : String) (value : Value) :
    (s.note (f path) value).reads = mapReads f (t.note path value).reads := by
  rw [reads_note, reads_note]
  have hs : f path ∈ s.reads.map Prod.fst ↔
      f path ∈ (t.reads.map (Prod.map f id)).map Prod.fst := by
    rw [h, mapReads, mem_map_firstsBy]
  by_cases hpath : path ∈ t.reads.map Prod.fst
  · have hf : f path ∈ (t.reads.map (Prod.map f id)).map Prod.fst := by
      obtain ⟨read, hread, rfl⟩ := List.mem_map.1 hpath
      exact List.mem_map.2 ⟨_, List.mem_map_of_mem hread, rfl⟩
    rw [if_pos hpath, if_pos (hs.2 hf), h]
  · rw [if_neg hpath, mapReads, List.map_append, List.map_singleton, firstsBy_concat, h, mapReads]
    rw [h, mapReads] at hs
    simp only [hs, Prod.map_fst]
    rfl

/-! ## Variables -/

/-- Neither the elements nor the payload have anything at the path. -/
def Scope.Unserved (payload : Value) (scope : Scope) (path : String) : Prop :=
  scope.resolve path = .ok none ∧ payload.read path = .ok none

instance (payload : Value) (scope : Scope) (path : String) :
    Decidable (scope.Unserved payload path) :=
  inferInstanceAs (Decidable (_ ∧ _))

/-- What the variable means comes from the innermost element of the given name or from nothing, in
either spelling: no element inside that one serves it, and where that one lacks it, nothing does. -/
def Scope.BoundOnly (payload : Value) (name : String) (path path' : String) : Scope → Prop
  | [] => True
  | frame :: outer =>
    if frame.name = some name then
      frame.Lacks path →
        Unserved payload (frame :: outer) path ∧ Unserved payload (frame :: outer) path'
    else
      (frame.resolve path = .ok none ∧ frame.resolve path' = .ok none) ∧
        BoundOnly payload name path path' outer

/-- Whether a variable comes from its element only. -/
def Scope.decideBoundOnly (payload : Value) (name : String) (path path' : String) :
    (scope : Scope) → Decidable (scope.BoundOnly payload name path path')
  | [] => .isTrue trivial
  | frame :: outer =>
    have := decideBoundOnly payload name path path' outer
    inferInstanceAs (Decidable (if frame.name = some name then _ else _))

instance (payload : Value) (name path path' : String) (scope : Scope) :
    Decidable (scope.BoundOnly payload name path path') :=
  scope.decideBoundOnly payload name path path'

/-- An element that has what a variable means serves it under another name too. -/
theorem Frame.resolve_rename {value : Value} {old new path : String} (hold : old ≠ "")
    (hnew : new ≠ "") (hrelative : Path.isRelativeTo old path = true)
    (h : ¬(Frame.mk value (some old)).Lacks path) :
    (Frame.mk value (some new)).resolve (Path.rename old new path) =
      (Frame.mk value (some old)).resolve path := by
  rcases Path.cases_of_isRelativeTo hrelative with rfl | ⟨rest, hafter, rfl⟩
  · rw [Path.rename_self, resolve_name hold, resolve_name hnew]
  · rw [Path.rename_append, resolve_after hold (Path.append_ne_self old rest) hafter,
      resolve_after hnew (Path.append_ne_self new rest) (Path.after?_append new rest)]
    simp only [Lacks, Option.bind_some, hafter] at h
    rcases hread : value.read rest with error | _ | found
    · rfl
    · exact absurd hread h
    · rfl

/-- An element that lacks what a variable means lacks it under another name too. -/
theorem Frame.resolve_rename_eq_none {value : Value} {old new path : String} (hnew : new ≠ "")
    (hrelative : Path.isRelativeTo old path = true) (h : (Frame.mk value (some old)).Lacks path)
    (hnone : (Frame.mk value (some old)).resolve (Path.rename old new path) = .ok none) :
    (Frame.mk value (some new)).resolve (Path.rename old new path) = .ok none := by
  have hread := read_eq_none_of_resolve hnone
  rcases Path.cases_of_isRelativeTo hrelative with rfl | ⟨rest, hafter, rfl⟩
  · simp only [Lacks, Option.bind_some] at h
    split at h
    · rename_i rest hrest
      exact absurd (Path.eq_of_after? hrest).symm (Path.append_ne_self _ rest)
    · exact h.elim
  · simp only [Lacks, Option.bind_some, hafter] at h
    rw [Path.rename_append] at hread ⊢
    rw [resolve_after hnew (Path.append_ne_self new rest) (Path.after?_append new rest), h]
    exact hread

variable {payload value : Value} {old new : String} {inner outer : Scope}

/-- A variable that is relative to neither name means the same among both elements. -/
theorem Scope.resolve_of_not_isRelativeTo {path : String}
    (hold : Path.isRelativeTo old path = false) (hnew : Path.isRelativeTo new path = false) :
    (inner ++ ⟨value, some new⟩ :: outer).resolve path =
      (inner ++ ⟨value, some old⟩ :: outer).resolve path := by
  rw [resolve_append, resolve_append, resolve_cons, resolve_cons, Frame.resolve_eq_read,
    Frame.resolve_eq_read]
  · rintro _ ⟨⟩
    exact hold
  · rintro _ ⟨⟩
    exact hnew

/-- A variable that nothing serves is not served under the other name, if it is not relative to
that. -/
theorem Scope.resolve_eq_none_of_old {path : String} (hnew : Path.isRelativeTo new path = false)
    (h : (inner ++ ⟨value, some old⟩ :: outer).resolve path = .ok none) :
    (inner ++ ⟨value, some new⟩ :: outer).resolve path = .ok none := by
  rw [resolve_eq_none_iff, List.forall_mem_append, List.forall_mem_cons] at h ⊢
  obtain ⟨hinner, hframe, houter⟩ := h
  refine ⟨hinner, ?_, houter⟩
  have hread : value.read path = .ok none := Frame.read_eq_none_of_resolve hframe
  rw [Frame.resolve_eq_read]
  · exact hread
  · rintro _ ⟨⟩
    exact hnew

/-- **A variable that comes from its element only means the same under the other name.** -/
theorem Scope.resolve_rename {path : String} (hold : old ≠ "") (hnew : new ≠ "")
    (hrelative : Path.isRelativeTo old path = true) (hfresh : Path.isRelativeTo new path = false)
    (h : (inner ++ ⟨value, some old⟩ :: outer).BoundOnly payload old path
      (Path.rename old new path)) {path' : String}
    (hpath' : path' = if old ∈ inner.names then path else Path.rename old new path) :
    (inner ++ ⟨value, some new⟩ :: outer).resolve path' =
        (inner ++ ⟨value, some old⟩ :: outer).resolve path ∧
      ((inner ++ ⟨value, some old⟩ :: outer).resolve path = .ok none →
        payload.read path' = payload.read path) := by
  induction inner with
  | nil =>
    obtain rfl : path' = Path.rename old new path := hpath'
    rw [List.nil_append, BoundOnly, if_pos rfl] at h
    by_cases hlacks : (Frame.mk value (some old)).Lacks path
    · obtain ⟨⟨hresolve, hread⟩, hresolve', hread'⟩ := h hlacks
      obtain ⟨hframe, houter⟩ := List.forall_mem_cons.1 (resolve_eq_none_iff.1 hresolve')
      have hrenamed : resolve (Path.rename old new path) (⟨value, some new⟩ :: outer) = .ok none :=
        resolve_eq_none_iff.2 (List.forall_mem_cons.2
          ⟨Frame.resolve_rename_eq_none hnew hrelative hlacks hframe, houter⟩)
      exact ⟨hrenamed.trans hresolve.symm, fun _ => hread'.trans hread.symm⟩
    · have hserved : (Frame.mk value (some old)).resolve path ≠ .ok none :=
        fun hnone => hlacks (Frame.lacks_of_resolve rfl hold hrelative hnone)
      have hsame := Frame.resolve_rename hold hnew hrelative hlacks
      rw [List.nil_append, List.nil_append, resolve_cons_of_ne hserved,
        resolve_cons_of_ne (by rw [hsame]; exact hserved)]
      exact ⟨hsame, fun hnone => absurd hnone hserved⟩
  | cons frame inner ih =>
    rw [List.cons_append, BoundOnly] at h
    by_cases hname : frame.name = some old
    · -- the variable is bound further inside, and keeps its spelling
      rw [names, List.filterMap_cons_some hname, if_pos (List.mem_cons_self ..)] at hpath'
      rw [if_pos hname] at h
      rw [hpath']
      refine ⟨?_, fun _ => rfl⟩
      by_cases hlacks : frame.Lacks path
      · have hnone := (h hlacks).1.1
        rw [← List.cons_append] at hnone
        rw [hnone, resolve_eq_none_of_old hfresh hnone]
      · have hserved : frame.resolve path ≠ .ok none :=
          fun hnone => hlacks (Frame.lacks_of_resolve hname hold hrelative hnone)
        rw [List.cons_append, List.cons_append, resolve_cons_of_ne hserved,
          resolve_cons_of_ne hserved]
    · have hnames : old ∈ names (frame :: inner) ↔ old ∈ names inner := by
        simp [names, hname]
      simp only [hnames] at hpath'
      rw [if_neg hname] at h
      obtain ⟨⟨hold', hnew'⟩, hrest⟩ := h
      have hframe : frame.resolve path' = .ok none := by
        rw [hpath']
        split
        · exact hold'
        · exact hnew'
      rw [List.cons_append, List.cons_append, resolve_cons, resolve_cons, hframe, hold']
      exact ih hrest hpath'

/-! ## Conditions -/

namespace Expr

/-- At this node, a variable that is relative to the name comes from its element only, in the
spelling with either name. -/
def VariableBoundOnly (payload : Value) (old new : String) : Expr × Scope → Prop
  | (.reference path _, scope) =>
    Path.isRelativeTo old path = true → scope.BoundOnly payload old path (Path.rename old new path)
  | _ => True

instance (payload : Value) (old new : String) :
    (visit : Expr × Scope) → Decidable (VariableBoundOnly payload old new visit)
  | (.reference _ _, _) => inferInstanceAs (Decidable (_ → Scope.BoundOnly _ _ _ _ _))
  | (.literal .., _) => .isTrue trivial
  | (.not .., _) => .isTrue trivial
  | (.binary .., _) => .isTrue trivial
  | (.quantified .., _) => .isTrue trivial

/-- The relation of the traces before and after a renaming. -/
def Renamed (old new : String) (s t : Trace) : Prop :=
  s.reads = mapReads (Path.rename new old) t.reads

/-- The relation of the failures before and after a renaming. -/
def RenamedError (old new : String) (error error' : EvaluationError) : Prop :=
  error = error'.mapPath (Path.rename new old)

/-- A variable of the condition is read in lockstep with a spelling that renaming back leads to. -/
theorem readVariable_renamed {scope scope' : Scope} {path path' : String}
    (hback : Path.rename new old path' = path)
    (hresolve : scope'.resolve path' = scope.resolve path)
    (hread : scope.resolve path = .ok none → payload.read path' = payload.read path) :
    Lockstep (Renamed old new) (RenamedError old new) Eq (readVariable payload scope path)
      (readVariable payload scope' path') := by
  refine readVariable_lockstep (fun error h => ?_) hresolve hread fun value s t h => ?_
  · exact (EvaluationError.mapPath_of_isNumeric _ h).symm
  · rw [← hback]
    exact note_mapReads h path' value

theorem rename_path? {e : Expr} {within : List String} (hfresh : e.Fresh new) :
    (e.renameBound old new within).path?.map (Path.rename new old) = e.path? := by
  cases e with
  | reference path span =>
    have hpath := fresh_reference.1 hfresh
    simp only [renameBound, path?, Option.map_some, Option.some.injEq]
    split
    · exact Path.rename_eq_self hpath
    · exact Path.rename_rename hpath
  | _ => rfl

/-- **Inside its element, the renamed condition runs in lockstep.** -/
theorem parallel_renameBound (hold : old ≠ "") (hnew : new ≠ "") {e : Expr} {within : List String}
    (hwithin : within = inner.names) (hfresh : e.Fresh new)
    (hbound : ∀ visit ∈ e.visits payload (inner ++ ⟨value, some old⟩ :: outer),
      VariableBoundOnly payload old new visit) :
    Parallel payload (Renamed old new) (RenamedError old new) e
      (inner ++ ⟨value, some old⟩ :: outer) (e.renameBound old new within)
      (inner ++ ⟨value, some new⟩ :: outer) := by
  induction e generalizing inner within with
  | literal => exact .literal
  | reference path span =>
    have hpath := fresh_reference.1 hfresh
    refine .reference ?_
    cases hrelative : Path.isRelativeTo old path with
    | false =>
      rw [Path.rename_eq_self hrelative, ite_self]
      exact readVariable_renamed (Path.rename_eq_self hpath)
        (Scope.resolve_of_not_isRelativeTo hrelative hpath) fun _ => rfl
    | true =>
      obtain ⟨hresolve, hread⟩ := Scope.resolve_rename hold hnew hrelative hpath
        (hbound _ (mem_visits_self ..) hrelative) (congrArg (if old ∈ · then path else _) hwithin)
      refine readVariable_renamed ?_ hresolve hread
      split
      · exact Path.rename_eq_self hpath
      · exact Path.rename_rename hpath
  | not _ _ _ ih => exact .not (ih hwithin hfresh (List.forall_mem_cons.1 hbound).2)
  | binary _ _ _ _ _ ihl ihr =>
    obtain ⟨hleft, hright⟩ := List.forall_mem_append.1 (List.forall_mem_cons.1 hbound).2
    obtain ⟨hfreshl, hfreshr⟩ := fresh_binary.1 hfresh
    exact .binary (ihl hwithin hfreshl hleft) (ihr hwithin hfreshr hright)
  | quantified q collection predicate binder _ ihc ihp =>
    obtain ⟨hcollection, hpredicate⟩ := List.forall_mem_append.1 (List.forall_mem_cons.1 hbound).2
    obtain ⟨hfreshc, hfreshp⟩ := fresh_quantified.1 hfresh
    refine .quantified (ihc hwithin hfreshc hcollection) (fun kind => ?_) ?_
    · rw [RenamedError, EvaluationError.mapPath, rename_path? hfreshc]
    · intro collected items hcollected hitems item hitem
      show Parallel _ _ _ _ (⟨item, some binder.name⟩ :: inner ++ ⟨value, some old⟩ :: outer) _
        (⟨item, some binder.name⟩ :: inner ++ ⟨value, some new⟩ :: outer)
      refine ihp (congrArg (binder.name :: ·) hwithin) hfreshp ?_
      exact List.forall_mem_flatMap.1 hpredicate item (mem_itemsIn hcollected hitems hitem)

theorem path?_of_fresh {e : Expr} (hfresh : e.Fresh new) :
    e.path?.map (Path.rename new old) = e.path? := by
  cases e with
  | reference path span =>
    exact congrArg some (Path.rename_eq_self (fresh_reference.1 hfresh))
  | _ => rfl

/-- A condition without the new name runs in lockstep with itself. -/
theorem parallel_of_fresh {e : Expr} (hfresh : e.Fresh new) (scope : Scope) :
    Parallel payload (Renamed old new) (RenamedError old new) e scope e scope := by
  refine parallel_self (fun error h => (EvaluationError.mapPath_of_isNumeric _ h).symm) ?_ ?_ scope
  · intro c hsubset q kind
    rw [RenamedError, EvaluationError.mapPath,
      path?_of_fresh fun occurrence h => hfresh occurrence (hsubset h)]
  · intro read hread value s t h
    have hpath : Path.rename new old read.1 = read.1 := Path.rename_eq_self (hfresh read hread)
    have hnote := note_mapReads h read.1 value
    rw [hpath] at hnote
    exact hnote

theorem Replaces.path? {a b e e' : Expr} (h : Replaces a b e e')
    (hab : b.path?.map (Path.rename new old) = a.path?) :
    e'.path?.map (Path.rename new old) = e.path? := by
  cases h with
  | here => exact hab
  | _ => rfl

/-- **A condition runs in lockstep when the replaced part does**, wherever an evaluation comes to
it. -/
theorem Replaces.parallel {a b e e' : Expr} {scope : Scope} (h : Replaces a b e e')
    (hfresh : e.Fresh new) (hpath : b.path?.map (Path.rename new old) = a.path?)
    (hab : ∀ around, (a, around) ∈ e.visits payload scope →
      Parallel payload (Renamed old new) (RenamedError old new) a around b around) :
    Parallel payload (Renamed old new) (RenamedError old new) e scope e' scope := by
  induction h generalizing scope with
  | here => exact hab scope (mem_visits_self ..)
  | not _ ih => exact .not (ih hfresh fun around ha => hab around (List.mem_cons_of_mem _ ha))
  | left _ ih =>
    obtain ⟨hfreshl, hfreshr⟩ := fresh_binary.1 hfresh
    refine .binary (ih hfreshl fun around ha => ?_) (parallel_of_fresh hfreshr scope)
    exact hab around (List.mem_cons_of_mem _ (List.mem_append_left _ ha))
  | right _ ih =>
    obtain ⟨hfreshl, hfreshr⟩ := fresh_binary.1 hfresh
    refine .binary (parallel_of_fresh hfreshl scope) (ih hfreshr fun around ha => ?_)
    exact hab around (List.mem_cons_of_mem _ (List.mem_append_right _ ha))
  | collection hreplaces ih =>
    obtain ⟨hfreshc, hfreshp⟩ := fresh_quantified.1 hfresh
    refine .quantified (ih hfreshc fun around ha => ?_) (fun kind => ?_)
      fun _ _ _ _ _ _ => parallel_of_fresh hfreshp _
    · exact hab around (List.mem_cons_of_mem _ (List.mem_append_left _ ha))
    · rw [RenamedError, EvaluationError.mapPath, hreplaces.path? hpath]
  | predicate _ ih =>
    obtain ⟨hfreshc, hfreshp⟩ := fresh_quantified.1 hfresh
    refine .quantified (parallel_of_fresh hfreshc scope) (fun kind => ?_) ?_
    · rw [RenamedError, EvaluationError.mapPath, path?_of_fresh hfreshc]
    · intro collected items hcollected hitems item hitem
      refine ih hfreshp fun around ha => hab around ?_
      exact List.mem_cons_of_mem _ (List.mem_append_right _
        (List.mem_flatMap.2 ⟨item, mem_itemsIn hcollected hitems hitem, ha⟩))

/-! ## Compiled conditions -/

theorem aliasesKept_renameBound {e : Expr} {within : List String} (h : e.AliasesKept) :
    (e.renameBound old new within).AliasesKept := by
  induction e generalizing within with
  | literal => trivial
  | reference => trivial
  | not _ _ _ ih => exact ih h
  | binary _ _ _ _ _ ihl ihr => exact ⟨ihl h.1, ihr h.2⟩
  | quantified _ _ _ _ _ ihc ihp => exact ⟨ihc h.1, ihp h.2.1, h.2.2⟩

theorem Replaces.aliasesKept {a b e e' : Expr} (h : Replaces a b e e') (he : e.AliasesKept) :
    a.AliasesKept ∧ (b.AliasesKept → e'.AliasesKept) := by
  induction h with
  | here => exact ⟨he, id⟩
  | not _ ih => exact ih he
  | left _ ih => exact (ih he.1).imp_right fun hb hkept => ⟨hb hkept, he.2⟩
  | right _ ih => exact (ih he.2).imp_right fun hb hkept => ⟨he.1, hb hkept⟩
  | collection _ ih => exact (ih he.1).imp_right fun hb hkept => ⟨hb hkept, he.2⟩
  | predicate _ ih => exact (ih he.2.1).imp_right fun hb hkept => ⟨he.1, hb hkept, he.2.2⟩

/-- At this node, the variables that a quantifier binds come from its elements only, in the spelling
with the alias and with the new name. -/
def AliasBoundOnly (payload : Value) (new : String) : Expr × Scope → Prop
  | (.quantified _ collection predicate binder _, scope) =>
    ∀ item ∈ collection.itemsIn payload scope,
      ∀ visit ∈ predicate.visits payload (⟨item, some binder.name⟩ :: scope),
        VariableBoundOnly payload binder.name new visit
  | _ => True

instance (payload : Value) (new : String) :
    (visit : Expr × Scope) → Decidable (AliasBoundOnly payload new visit)
  | (.quantified .., _) => inferInstanceAs (Decidable (∀ _ ∈ _, ∀ _ ∈ _, VariableBoundOnly _ _ _ _))
  | (.literal .., _) => .isTrue trivial
  | (.reference .., _) => .isTrue trivial
  | (.not .., _) => .isTrue trivial
  | (.binary .., _) => .isTrue trivial

end Expr

theorem ne_empty_of_aliasName {name : String} (h : Logic.aliasName [.string name] = name) :
    name ≠ "" := by
  rintro rfl
  exact absurd h (by decide)

/-- Conditions that run in lockstep have the same verdict, told with other paths. -/
theorem judge_of_lockstep {e e' : Expr} (he : e.AliasesKept) (he' : e'.AliasesKept)
    (h : Lockstep (Expr.Renamed old new) (Expr.RenamedError old new) Eq (e.interpret payload [])
      (e'.interpret payload [])) :
    judge e.toLogic payload =
      ((judge e'.toLogic payload).map (·.mapPaths (Path.rename new old))).mapError
        (·.mapPath (Path.rename new old)) := by
  obtain ⟨hpaired, hreads⟩ := h .start .start rfl
  rw [judge, judge, eval_toLogic he, eval_toLogic he']
  rcases hrun : (e.interpret payload []).run .start with ⟨_ | v, s⟩ <;>
    rcases hrun' : (e'.interpret payload []).run .start with ⟨_ | v', t⟩ <;>
    rw [hrun, hrun'] at hpaired hreads
  · cases hpaired with | error herror => exact congrArg Except.error herror
  · cases hpaired
  · cases hpaired
  · cases hpaired with | ok hvalue =>
    subst hvalue
    exact congrArg (fun reads => Except.ok (Verdict.mk v.truthy reads)) hreads

/-- The same of the evaluation that refuses what there is no room for. -/
theorem evaluateOn_of_judge {f : String → String} {logic logic' : Json}
    (hheight : logic.height = logic'.height)
    (h : judge logic payload =
      ((judge logic' payload).map (·.mapPaths f)).mapError (·.mapPath f)) (room : Nat) :
    evaluateOn logic payload room =
      ((evaluateOn logic' payload room).map (·.mapPaths f)).mapError (·.mapPath f) := by
  rw [evaluateOn, evaluateOn, hheight, h]
  split
  · rfl
  · rcases judge logic' payload with error | verdict <;> rfl

namespace Condition

/-- **An alias is only a name, as long as its variables come from its elements only.** With another
name for the alias of a quantifier, which no variable is relative to, a condition has the same truth
and the same failure, whatever room there is, and the reads differ in the name only. -/
theorem evaluateOn_renameAlias {text : String} {limit : Int} {e e' quantifier : Expr}
    {old new : String} (hparse : Expr.parse text limit = .ok e)
    (halias : quantifier.alias? = some old)
    (hrename : Expr.Replaces quantifier (quantifier.renameAlias new) e e') (hnew : IsName new)
    (hfresh : e.Fresh new) {payload : Value}
    (hbound : ∀ visit ∈ e.visits payload [],
      visit.1 = quantifier → Expr.AliasBoundOnly payload new visit) (room : Nat) :
    evaluateOn e.toLogic payload room =
      ((evaluateOn e'.toLogic payload room).map (·.mapPaths (Path.rename new old))).mapError
        (·.mapPath (Path.rename new old)) := by
  refine evaluateOn_of_judge (hrename.sameHeight (Expr.sameHeight_renameAlias ..)).height ?_ room
  rcases quantifier with _ | _ | _ | _ | ⟨q, collection, predicate, binder, spans⟩ <;> cases halias
  have hkept := aliasesKept_of_wellFormed (Expr.wellFormed_of_parse hparse)
  obtain ⟨hquantifier, hkept'⟩ := hrename.aliasesKept hkept
  have hnewname := aliasName_of_isName hnew
  refine judge_of_lockstep hkept
    (hkept' ⟨hquantifier.1, Expr.aliasesKept_renameBound hquantifier.2.1, hnewname⟩) ?_
  refine (hrename.parallel hfresh rfl fun around hvisit => ?_).lockstep
    fun error h => (EvaluationError.mapPath_of_isNumeric _ h).symm
  obtain ⟨hfreshc, hfreshp⟩ := Expr.fresh_quantified.1 (hrename.fresh hfresh)
  refine .quantified (Expr.parallel_of_fresh hfreshc around) (fun kind => ?_) ?_
  · rw [Expr.RenamedError, EvaluationError.mapPath, Expr.path?_of_fresh hfreshc]
  · intro value items hvalue hitems item hitem
    show Expr.Parallel _ _ _ _ ([] ++ ⟨item, some binder.name⟩ :: around) _
      ([] ++ ⟨item, some new⟩ :: around)
    exact Expr.parallel_renameBound (ne_empty_of_aliasName hquantifier.2.2)
      (ne_empty_of_aliasName hnewname) rfl hfreshp
      (hbound _ hvisit rfl item (Expr.mem_itemsIn hvalue hitems hitem))

theorem evaluateOn_renameAlias_groups :
    ∃ e, Expr.parse groupsText 8 = .ok e ∧
      evaluateOn e.toLogic (groupsPayload [.object [], .object [("id", .int 2)]]) =
        ((evaluateOn (e.renameAlias "z").toLogic
            (groupsPayload [.object [], .object [("id", .int 2)]])).map
          (·.mapPaths (Path.rename "z" "x"))).mapError (·.mapPath (Path.rename "z" "x")) := by
  obtain ⟨e, he⟩ : ∃ e, Expr.parse groupsText 8 = .ok e := ⟨_, rfl⟩
  refine ⟨e, he, evaluateOn_renameAlias he ?_ .here (by decide) ?_ ?_ _⟩ <;>
    obtain rfl := Except.ok.inj he
  · rfl
  · decide
  · decide

/-- Data in which the payload has something under the name of the alias. -/
def servedPayload : Value :=
  .ofJson ⟨0, []⟩ (.object [("items", .array [.object []]), ("x", .object [("done", .bool true)])])

/-- The JSON-Logic of a condition on items, under a name. -/
def someDone (name : String) : Json :=
  .object [("some", .array [.object [("var", .string "items")],
    .object [("var", .string (name ++ ".done"))], .string name])]

/-- A field that the element lacks is served by the payload, under one of the names. -/
theorem evaluateOn_renameAlias_served :
    ∃ e, Expr.parse "some(items as x, x.done)" 8 = .ok e ∧ e.alias? = some "x" ∧ e.Fresh "y" ∧
      (evaluateOn e.toLogic servedPayload).map (·.holds) = .ok true ∧
      (evaluateOn (e.renameAlias "y").toLogic servedPayload).map (·.holds) = .ok false := by
  obtain ⟨e, he⟩ : ∃ e, Expr.parse "some(items as x, x.done)" 8 = .ok e := ⟨_, rfl⟩
  obtain ⟨halias, hfresh, hlogic, hrenamed⟩ : e.alias? = some "x" ∧ e.Fresh "y" ∧
      e.toLogic = someDone "x" ∧ (e.renameAlias "y").toLogic = someDone "y" := by
    obtain rfl := Except.ok.inj he
    exact ⟨rfl, by decide, rfl, rfl⟩
  refine ⟨e, he, halias, hfresh, ?_, ?_⟩
  · rw [hlogic]
    rfl
  · rw [hrenamed]
    rfl

end Condition

end Criteria
