import Criteria.Firsts
import Criteria.Proofs.Evaluation.Forms
import Criteria.Proofs.Evaluation.Twins

/-!
# Renumbering trees of data

An evaluation does not depend on which numbers the trees of data have, nor on what was read before:
when distinct trees get distinct numbers, and those of the payload stay, the outcome is the same up
to the numbers, and the same paths of the payload are read (`Evaluation.lockstep_renumber`). What a
path leads to, the elements of a collection and the places of new arrays move along; a renumbered
value counts as its original does, as the two are twins (`Value.twin_renumber`).
-/

namespace Criteria

open Evaluation

/-! ## Values -/

/-- The same place, in the tree of another number. -/
def Mark.renumber (f : Nat → Nat) (mark : Mark) : Mark := { mark with root := f mark.root }

namespace Value

mutual

/-- The same value, in trees of other numbers. -/
def renumber (f : Nat → Nat) : Value → Value
  | .missing => .missing
  | .scalar value => .scalar value
  | .array mark items => .array (mark.renumber f) (renumberItems f items)
  | .object mark fields => .object (mark.renumber f) (renumberFields f fields)

/-- The items, in trees of other numbers. -/
def renumberItems (f : Nat → Nat) : List Value → List Value
  | [] => []
  | item :: rest => renumber f item :: renumberItems f rest

/-- The entries, in trees of other numbers. -/
def renumberFields (f : Nat → Nat) : List (String × Value) → List (String × Value)
  | [] => []
  | (name, value) :: rest => (name, renumber f value) :: renumberFields f rest

end

variable {f : Nat → Nat}

theorem renumberItems_eq_map (items : List Value) : renumberItems f items = items.map (renumber f) := by
  induction items with
  | nil => rfl
  | cons item rest ih => rw [renumberItems, ih, List.map_cons]

theorem lookup_renumberFields (name : String) (fields : List (String × Value)) :
    (renumberFields f fields).lookup name = (fields.lookup name).map (renumber f) := by
  induction fields with
  | nil => rfl
  | cons entry rest ih =>
    obtain ⟨other, value⟩ := entry
    rw [renumberFields, List.lookup_cons, List.lookup_cons, ih]
    split <;> rfl

/-- A value without other numbers is itself. -/
theorem renumber_id (value : Value) : value.renumber id = value := by
  refine (renumber.mutual_induct (fun value => value.renumber id = value)
    (fun fields => renumberFields id fields = fields)
    (fun items => renumberItems id items = items) ?_ ?_ ?_ ?_ ?_ ?_ ?_ ?_).1 value
  · rfl
  · exact fun _ => rfl
  · exact fun _ _ hitems => by rw [renumber, hitems]; rfl
  · exact fun _ _ hfields => by rw [renumber, hfields]; rfl
  · rfl
  · exact fun _ _ hitem hrest => by rw [renumberItems, hitem, hrest]
  · rfl
  · exact fun _ _ _ hvalue hrest => by rw [renumberFields, hvalue, hrest]

/-- A value that was moved is renumbered by moving it elsewhere. -/
theorem renumber_moveTo (mark : Mark) (value : Value) :
    (value.moveTo mark).renumber f = value.moveTo (mark.renumber f) := by
  refine (moveTo.mutual_induct
    (fun mark value => (value.moveTo mark).renumber f = value.moveTo (mark.renumber f))
    (fun mark index fields =>
      renumberFields f (moveFields mark index fields) = moveFields (mark.renumber f) index fields)
    (fun mark index items =>
      renumberItems f (moveItems mark index items) = moveItems (mark.renumber f) index items)
    ?_ ?_ ?_ ?_ ?_ ?_ ?_ ?_).1 mark value
  · exact fun _ => rfl
  · exact fun _ _ => rfl
  · exact fun _ _ _ hitems => by rw [moveTo, renumber, hitems, moveTo]
  · exact fun _ _ _ hfields => by rw [moveTo, renumber, hfields, moveTo]
  · exact fun _ _ => rfl
  · exact fun _ _ _ _ hitem hrest => by
      rw [moveItems, renumberItems, hitem, hrest, moveItems]
      rfl
  · exact fun _ _ => rfl
  · exact fun _ _ _ _ _ hvalue hrest => by
      rw [moveFields, renumberFields, hvalue, hrest, moveFields]
      rfl

/-- **A renumbered value is a twin of its original.** -/
theorem twin_renumber (value : Value) :
    value.Twin (fun m n => n = m.renumber f) (value.renumber f) := by
  refine (renumber.mutual_induct
    (fun value => value.Twin (fun m n => n = m.renumber f) (value.renumber f))
    (fun fields => ∀ name v, fields.lookup name = some v →
      v.Twin (fun m n => n = m.renumber f) (v.renumber f))
    (fun items => ∀ v ∈ items, v.Twin (fun m n => n = m.renumber f) (v.renumber f))
    ?_ ?_ ?array ?object ?_ ?_ ?_ ?fieldsCons).1 value
  · exact .missing
  · exact .scalar
  case array =>
    intro mark items hitems
    rw [renumber, renumberItems_eq_map]
    refine .array_of_forall₂ rfl ?_
    rw [List.forall₂_map_right_iff, List.forall₂_same]
    exact hitems
  case object =>
    intro mark fields hfields
    rw [renumber]
    refine .object rfl (fun name => ?_) fun name v w hv hw => ?_
    · rw [lookup_renumberFields, Option.isSome_map]
    · rw [lookup_renumberFields, hv] at hw
      cases hw
      exact hfields name v hv
  · exact List.forall_mem_nil _
  · exact fun _ _ hitem hrest => List.forall_mem_cons.2 ⟨hitem, hrest⟩
  · exact fun _ _ h => nomatch h
  case fieldsCons =>
    intro other value rest hvalue hrest name v hv
    rw [List.lookup_cons] at hv
    split at hv
    · cases hv
      exact hvalue
    · exact hrest name v hv

/-- Distinct places stay distinct when distinct trees get distinct numbers. -/
theorem oneToOne_renumber (hf : Function.Injective f) :
    OneToOne fun (m n : Mark) => n = m.renumber f := by
  rintro ⟨root, way⟩ _ ⟨root', way'⟩ _ rfl rfl
  simp only [Mark.renumber, Mark.mk.injEq, hf.eq_iff]

/-! ## Reading -/

theorem part?_renumber (value : Value) (segment : String) :
    (value.renumber f).part? segment = (value.part? segment).map (Option.map (renumber f)) := by
  cases value with
  | missing => rfl
  | scalar => rfl
  | array mark items =>
    simp only [renumber, part?, renumberItems_eq_map, List.getElem?_map]
    split
    · split <;> rfl
    · rfl
  | object mark fields =>
    simp only [renumber, part?, lookup_renumberFields]
    rfl

theorem follow_renumber (value : Value) (segments : List String) :
    (value.renumber f).follow segments = (value.follow segments).map (Option.map (renumber f)) := by
  induction segments generalizing value with
  | nil => rfl
  | cons segment rest ih =>
    rw [follow, follow, part?_renumber]
    rcases value.part? segment with error | _ | next
    · rfl
    · rfl
    · exact ih next

theorem read_renumber (value : Value) (path : String) :
    (value.renumber f).read path = (value.read path).map (Option.map (renumber f)) := by
  unfold read
  split
  · rfl
  · exact follow_renumber value _

/-- What is read in a tree that keeps its number keeps its number. -/
theorem renumber_of_read {payload : Value} {path : String} {found : Option Value}
    (hpayload : payload.renumber f = payload) (h : payload.read path = .ok found) :
    (found.getD .missing).renumber f = found.getD .missing := by
  have hread := read_renumber (f := f) payload path
  rw [hpayload, h] at hread
  cases found with
  | none => rfl
  | some value => exact (Option.some.inj (Except.ok.inj hread)).symm

theorem elements_renumber (q : Quantifier) (path : Option String) (value : Value) :
    elements q path (value.renumber f) =
      (elements q path value).map (List.map (renumber f)) := by
  cases value with
  | missing => rfl
  | scalar value => cases value <;> rfl
  | array mark items =>
    rw [renumber, renumberItems_eq_map]
    rfl
  | object => rfl

end Value

/-! ## Elements around an expression -/

/-- The same element, in trees of other numbers. -/
def Frame.renumber (f : Nat → Nat) (frame : Frame) : Frame :=
  { frame with value := frame.value.renumber f }

variable {f : Nat → Nat}

theorem Frame.resolve_renumber (frame : Frame) (path : String) :
    (frame.renumber f).resolve path = (frame.resolve path).map (Option.map (Value.renumber f)) := by
  have hread := fun path => Value.read_renumber (f := f) frame.value path
  simp only [Frame.resolve, Frame.renumber, hread]
  split
  · split
    · split
      · rfl
      · split
        · rcases frame.value.read _ with error | _ | value <;> rfl
        · rfl
    · rfl
  · rfl

theorem Scope.resolve_renumber (scope : Scope) (path : String) :
    Scope.resolve path (scope.map (Frame.renumber f)) =
      (scope.resolve path).map (Option.map (Value.renumber f)) := by
  induction scope with
  | nil => rfl
  | cons frame outer ih =>
    rw [List.map_cons, resolve_cons, resolve_cons, frame.resolve_renumber, ih]
    rcases frame.resolve path with error | _ | value <;> rfl

namespace Evaluation

/-! ## Evaluation -/

/-- The trace of a run after which the trees have other numbers, and what was read before. -/
structure Renumbered (f : Nat → Nat) (old : List (String × Value)) (s t : Trace) : Prop where
  roots : ∀ i, f (s.nextRoot + i) = t.nextRoot + i
  reads : t.reads = firstsBy Prod.fst (old ++ s.reads)

variable {old : List (String × Value)} {payload : Value}

theorem Renumbered.note {s t : Trace} (h : Renumbered f old s t) (path : String) (value : Value) :
    Renumbered f old (s.note path value) (t.note path value) where
  roots := by
    rw [nextRoot_note, nextRoot_note]
    exact h.roots
  reads := by
    have hmem : path ∈ t.reads.map Prod.fst ↔ path ∈ (old ++ s.reads).map Prod.fst := by
      rw [h.reads, mem_map_firstsBy]
    rw [reads_note, reads_note]
    by_cases hpath : path ∈ s.reads.map Prod.fst
    · have hboth : path ∈ (old ++ s.reads).map Prod.fst := by
        rw [List.map_append]
        exact List.mem_append_right _ hpath
      rw [if_pos hpath, if_pos (hmem.2 hboth), h.reads]
    · rw [if_neg hpath, ← List.append_assoc, firstsBy_concat, h.reads]
      simp only [mem_map_firstsBy]

/-- Runs that come to the same value, up to the numbers of the trees. -/
abbrev LockstepRenumbered {α : Type} (f : Nat → Nat) (old : List (String × Value)) (g : α → α)
    (x y : Evaluation α) : Prop :=
  Lockstep (Renumbered f old) Eq (fun a b => b = g a) x y

theorem Paired.map_right {α : Type} (g : α → α) (outcome : Except EvaluationError α) :
    Paired Eq (fun a b => b = g a) outcome (outcome.map g) :=
  match outcome with
  | .ok _ => .ok rfl
  | .error _ => .error rfl

theorem Paired.eq_map {α : Type} {g : α → α} {x y : Except EvaluationError α}
    (h : Paired Eq (fun a b => b = g a) x y) : y = x.map g := by
  cases h with
  | ok hvalue =>
    rw [hvalue]
    rfl
  | error herror =>
    rw [herror]
    rfl

theorem renumbered_newArray {items items' : List Value}
    (hitems : List.Forall₂ (fun v w => w = Value.renumber f v) items items') :
    LockstepRenumbered f old (Value.renumber f) (newArray items) (newArray items') := by
  intro s t h
  obtain rfl : Value.renumberItems f items = items' := by
    induction hitems with
    | nil => rfl
    | cons hitem _ ih => rw [Value.renumberItems, ih, hitem]
  refine ⟨.ok ?_, fun i => ?_, h.reads⟩
  · rw [Value.renumber, Mark.renumber, ← Nat.add_zero s.nextRoot, h.roots 0, Nat.add_zero]
  · have hroot := h.roots (1 + i)
    rwa [← Nat.add_assoc, ← Nat.add_assoc] at hroot

/-- **A variable is read alike**, from the elements or from the payload, which keeps its number. -/
theorem renumbered_readVariable (hpayload : payload.renumber f = payload) (scope : Scope)
    (path : String) :
    LockstepRenumbered f old (Value.renumber f) (readVariable payload scope path)
      (readVariable payload (scope.map (Frame.renumber f)) path) := by
  intro s t h
  have hresolve := scope.resolve_renumber (f := f) path
  rcases hserved : scope.resolve path with error | _ | value <;> rw [hserved] at hresolve
  · rw [run_readVariable_failed hserved, run_readVariable_failed hresolve]
    exact ⟨.error rfl, h⟩
  · rcases hread : payload.read path with error | found
    · rw [run_readVariable_unread hserved hread, run_readVariable_unread hresolve hread]
      exact ⟨.error rfl, h⟩
    · rw [run_readVariable_read hserved hread, run_readVariable_read hresolve hread]
      exact ⟨.ok (Value.renumber_of_read hpayload hread).symm, h.note path _⟩
  · rw [run_readVariable_served hserved, run_readVariable_served hresolve]
    exact ⟨.ok rfl, h⟩

/-- A truth value is the same whatever the trees are called. -/
theorem renumbered_bool (b : Bool) :
    LockstepRenumbered f old (Value.renumber f) (pure (.bool b)) (pure (.bool b)) :=
  .pure rfl

/-- **An evaluation does not depend on the numbers of the trees**, nor on what was read before. -/
theorem lockstep_renumber (hf : Function.Injective f) (hpayload : payload.renumber f = payload)
    (value : Json) (scope : Scope) :
    LockstepRenumbered f old (Value.renumber f) (eval payload value scope)
      (eval payload value (scope.map (Frame.renumber f))) := by
  have htruthy (v : Value) : v.truthy = (v.renumber f).truthy := v.twin_renumber.truthy
  have hvalues : ∀ v w : Value, w = v.renumber f → v.truthy = w.truthy := by
    rintro v _ rfl
    exact htruthy v
  induction value using induction_on_forms generalizing scope with
  | scalar => exact .pure rfl
  | array items ih =>
    refine .bind (.evalItems (List.forall₂_same.2 fun item hitem => ih item hitem scope)) ?_
    exact fun values values' hrenumbered _ => renumbered_newArray hrenumbered
  | connective c items ih =>
    rw [eval_connective, eval_connective]
    refine .bind (.evalFirst hvalues
      (List.forall₂_same.2 fun item hitem => ih item hitem scope)) ?_
    rintro b _ rfl -
    exact renumbered_bool b
  | single c operand hoperand ih =>
    rw [eval_single c hoperand, eval_single c hoperand]
    refine .bind (ih scope) ?_
    rintro v _ rfl -
    rw [htruthy]
    exact renumbered_bool _
  | not operand ih =>
    refine .bind (ih scope) ?_
    rintro v _ rfl -
    rw [htruthy]
    exact renumbered_bool _
  | var operand path hpath =>
    rw [eval_variable hpath, eval_variable hpath]
    exact renumbered_readVariable hpayload scope path
  | compare c left right hl hr =>
    rw [eval_compare, eval_compare]
    refine .bind (hl scope) ?_
    rintro l _ rfl -
    refine .bind (hr scope) ?_
    rintro r _ rfl -
    rw [l.twin_renumber.compareValues (Value.oneToOne_renumber hf) c r.twin_renumber]
    refine .bind (.lift (.refl _)) ?_
    rintro b _ rfl -
    exact renumbered_bool b
  | quantify q source predicate more hmore hs hp =>
    rw [eval_quantify _ _ _ hmore, eval_quantify _ _ _ hmore]
    refine .bind (hs scope) ?_
    rintro collection _ rfl -
    rw [Value.elements_renumber]
    refine .bind (.lift (.map_right (List.map (Value.renumber f)) _)) ?_
    rintro items _ rfl -
    refine .bind (.decideFirst ?_) ?_
    · rw [List.forall₂_map_right_iff, List.forall₂_same]
      intro item _
      refine .bind (hp (⟨item, some (Logic.aliasName more)⟩ :: scope)) ?_
      rintro v _ rfl -
      exact .pure (htruthy v)
    · rintro b _ rfl -
      exact renumbered_bool b
  | malformed value error h =>
    rw [h.eval_eq, h.eval_eq]
    exact fun _ _ hR => ⟨.error rfl, hR⟩

end Evaluation

end Criteria
