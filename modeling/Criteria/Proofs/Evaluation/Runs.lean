import Criteria.Evaluation.Evaluator
import Mathlib.Data.List.Forall2

/-!
# Runs

A computation of the evaluator takes a trace to an outcome and to another trace. Two ways to reason
about that, each with one rule for every way in which computations are put together:

* `Evaluation.Keeps I E x`: a run of `x` keeps the property `I` of traces and fails with an error in
  `E` only;
* `Evaluation.Lockstep R E V x y`: runs of `x` and `y` that start with traces related by `R` end
  with such traces, and either yield values related by `V` or fail with errors related by `E`.
-/

namespace Criteria.Evaluation

variable {α α' β β' : Type}

/-- A failure of the first part is the failure of the whole. -/
theorem run_bind (x : Evaluation α) (f : α → Evaluation β) (trace : Trace) :
    (x >>= f).run trace =
      match x.run trace with
      | (.ok a, next) => (f a).run next
      | (.error error, next) => (.error error, next) := by
  unfold ExceptT.run
  simp only [bind, ExceptT.bind, ExceptT.mk, ExceptT.bindCont, StateT.bind]
  rcases x trace with ⟨outcome, next⟩
  cases outcome <;> rfl

/-- A computation in two parts fails when the first does, or the second after it. -/
theorem run_bind_error {x : Evaluation α} {f : α → Evaluation β} {trace : Trace}
    {error : EvaluationError} (h : ((x >>= f).run trace).1 = .error error) :
    (x.run trace).1 = .error error ∨
      ∃ a next, x.run trace = (.ok a, next) ∧ ((f a).run next).1 = .error error := by
  rw [run_bind] at h
  rcases hrun : x.run trace with ⟨_ | a, next⟩
  · rw [hrun] at h
    cases h
    exact .inl rfl
  · rw [hrun] at h
    exact .inr ⟨a, next, rfl, h⟩

/-- A path is noted once. -/
theorem reads_note (path : String) (value : Value) (trace : Trace) :
    (trace.note path value).reads =
      if path ∈ trace.reads.map Prod.fst then trace.reads
      else trace.reads ++ [(path, value)] := by
  have hany : trace.reads.any (·.1 == path) = true ↔ path ∈ trace.reads.map Prod.fst := by simp
  simp only [Trace.note, hany]
  split <;> rfl

theorem mem_reads_note {trace : Trace} {read : String × Value} (h : read ∈ trace.reads)
    (path : String) (value : Value) : read ∈ (trace.note path value).reads := by
  rw [reads_note]
  split
  · exact h
  · exact List.mem_append_left _ h

/-- A path that is noted is among the reads, perhaps since an earlier read. -/
theorem exists_mem_reads_note (path : String) (value : Value) (trace : Trace) :
    ∃ noted, (path, noted) ∈ (trace.note path value).reads := by
  rw [reads_note]
  split
  · rename_i h
    obtain ⟨⟨_, noted⟩, hmem, rfl⟩ := List.mem_map.1 h
    exact ⟨noted, hmem⟩
  · exact ⟨value, List.mem_concat_self⟩

theorem nextRoot_note (path : String) (value : Value) (trace : Trace) :
    (trace.note path value).nextRoot = trace.nextRoot := by
  unfold Trace.note
  split <;> rfl

/-- Some run of the computation yields the value. -/
def Yields (x : Evaluation α) (a : α) : Prop := ∃ trace, (x.run trace).1 = .ok a

/-! ## One run -/

/-- Runs keep a property of traces and fail with certain errors only. -/
def Keeps (I : Trace → Prop) (E : EvaluationError → Prop) (x : Evaluation α) : Prop :=
  ∀ trace, I trace → I (x.run trace).2 ∧ ∀ error, (x.run trace).1 = .error error → E error

namespace Keeps

variable {I : Trace → Prop} {E : EvaluationError → Prop}

theorem pure (a : α) : Keeps I E (Pure.pure a : Evaluation α) :=
  fun _ hI => ⟨hI, fun _ h => nomatch h⟩

theorem bind {x : Evaluation α} {f : α → Evaluation β} (hx : Keeps I E x)
    (hf : ∀ a, Yields x a → Keeps I E (f a)) : Keeps I E (x >>= f) := by
  intro trace hI
  rw [run_bind]
  obtain ⟨hnext, hfails⟩ := hx trace hI
  rcases hrun : x.run trace with ⟨_ | a, next⟩
  · rw [hrun] at hnext hfails
    refine ⟨hnext, fun error herror => hfails error ?_⟩
    cases herror
    rfl
  · rw [hrun] at hnext
    exact hf a ⟨trace, by rw [hrun]⟩ next hnext

theorem lift {outcome : Except EvaluationError α} (h : ∀ error, outcome = .error error → E error) :
    Keeps I E (Evaluation.lift outcome) :=
  fun _ hI => ⟨hI, h⟩

theorem decideFirst {decider : Bool} {holds : Value → Evaluation Bool} {items : List Value}
    (h : ∀ item ∈ items, Keeps I E (holds item)) :
    Keeps I E (decideFirst decider holds items) := by
  induction items with
  | nil => exact .pure _
  | cons item rest ih =>
    refine .bind (h item (List.mem_cons_self ..)) fun b _ => ?_
    split
    · exact .pure _
    · exact ih fun other hother => h other (List.mem_cons_of_mem item hother)

end Keeps

/-! ## Two runs side by side -/

/-- Two outcomes are values that are related, or errors that are. -/
inductive Paired (E : EvaluationError → EvaluationError → Prop) (V : α → β → Prop) :
    Except EvaluationError α → Except EvaluationError β → Prop
  | ok {a : α} {b : β} (h : V a b) : Paired E V (.ok a) (.ok b)
  | error {e e' : EvaluationError} (h : E e e') : Paired E V (.error e) (.error e')

theorem Paired.refl (outcome : Except EvaluationError α) : Paired Eq Eq outcome outcome :=
  match outcome with
  | .ok _ => .ok rfl
  | .error _ => .error rfl

theorem Paired.eq {x y : Except EvaluationError α} (h : Paired Eq Eq x y) : x = y := by
  cases h with
  | ok h => rw [h]
  | error h => rw [h]

theorem Paired.bind {E : EvaluationError → EvaluationError → Prop} {V : α → β → Prop}
    {W : α' → β' → Prop} {x : Except EvaluationError α} {y : Except EvaluationError β}
    {f : α → Except EvaluationError α'} {g : β → Except EvaluationError β'} (h : Paired E V x y)
    (hfg : ∀ a b, V a b → Paired E W (f a) (g b)) : Paired E W (x >>= f) (y >>= g) := by
  cases h with
  | ok hv => exact hfg _ _ hv
  | error he => exact .error he

/-- Runs from related traces have paired outcomes and end in related traces. -/
def Lockstep (R : Trace → Trace → Prop) (E : EvaluationError → EvaluationError → Prop)
    (V : α → β → Prop) (x : Evaluation α) (y : Evaluation β) : Prop :=
  ∀ s t, R s t → Paired E V (x.run s).1 (y.run t).1 ∧ R (x.run s).2 (y.run t).2

namespace Lockstep

variable {R : Trace → Trace → Prop} {E : EvaluationError → EvaluationError → Prop}
  {V : α → β → Prop} {W : α' → β' → Prop}

theorem pure {a : α} {b : β} (h : V a b) :
    Lockstep R E V (Pure.pure a : Evaluation α) (Pure.pure b) :=
  fun _ _ hR => ⟨.ok h, hR⟩

theorem bind {x : Evaluation α} {y : Evaluation β} {f : α → Evaluation α'} {g : β → Evaluation β'}
    (hxy : Lockstep R E V x y) (hfg : ∀ a b, V a b → Yields x a → Lockstep R E W (f a) (g b)) :
    Lockstep R E W (x >>= f) (y >>= g) := by
  intro s t hR
  obtain ⟨hpaired, hnext⟩ := hxy s t hR
  rw [run_bind, run_bind]
  rcases hx : x.run s with ⟨_ | a, s'⟩ <;> rcases hy : y.run t with ⟨_ | b, t'⟩ <;>
    rw [hx, hy] at hpaired hnext
  · cases hpaired with | error he => exact ⟨.error he, hnext⟩
  · cases hpaired
  · cases hpaired
  · cases hpaired with | ok hv => exact hfg a b hv ⟨s, by rw [hx]⟩ s' t' hnext

/-- A run is a run beside itself. -/
theorem self (hE : ∀ error, E error error) (x : Evaluation α) : Lockstep Eq E Eq x x := by
  rintro trace _ rfl
  refine ⟨?_, rfl⟩
  cases (x.run trace).1 with
  | ok a => exact .ok rfl
  | error error => exact .error (hE error)

theorem lift {x : Except EvaluationError α} {y : Except EvaluationError β} (h : Paired E V x y) :
    Lockstep R E V (Evaluation.lift x) (Evaluation.lift y) :=
  fun _ _ hR => ⟨h, hR⟩

theorem decideFirst {decider : Bool} {holds holds' : Value → Evaluation Bool}
    {items items' : List Value}
    (h : List.Forall₂ (fun item item' => Lockstep R E Eq (holds item) (holds' item')) items items') :
    Lockstep R E Eq (decideFirst decider holds items) (decideFirst decider holds' items') := by
  induction h with
  | nil => exact .pure rfl
  | cons hitem _ ih =>
    refine .bind hitem ?_
    rintro b _ rfl -
    split
    · exact .pure rfl
    · exact ih

variable {payload payload' : Value} {scope scope' : Scope} {items items' : List Json}
  {S : Value → Value → Prop}

theorem evalItems (h : List.Forall₂ (fun item item' =>
      Lockstep R E S (eval payload item scope) (eval payload' item' scope')) items items') :
    Lockstep R E (List.Forall₂ S) (evalItems payload items scope)
      (evalItems payload' items' scope') := by
  induction h with
  | nil => exact .pure .nil
  | cons hitem _ ih =>
    refine .bind hitem fun value value' hvalue _ => ?_
    exact .bind ih fun values values' hvalues _ => .pure (.cons hvalue hvalues)

theorem evalFirst {decider : Bool} (hS : ∀ v w, S v w → v.truthy = w.truthy)
    (h : List.Forall₂ (fun item item' =>
      Lockstep R E S (eval payload item scope) (eval payload' item' scope')) items items') :
    Lockstep R E Eq (evalFirst payload decider items scope)
      (evalFirst payload' decider items' scope') := by
  induction h with
  | nil => exact .pure rfl
  | cons hitem _ ih =>
    refine .bind hitem fun value value' hvalue _ => ?_
    rw [hS value value' hvalue]
    split
    · exact .pure rfl
    · exact ih

end Lockstep

end Criteria.Evaluation
