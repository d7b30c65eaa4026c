import Criteria.Proofs.Evaluation.Forms
import Criteria.Proofs.Evaluation.Places

/-!
# Reads explain the verdict

The reads of an evaluation are all that its outcome depends on: on every payload that gives the same
answers at the paths that were read, the evaluation succeeds with the same truth and the same reads
(`evaluate_of_sameAnswers`). Whatever else differs between the payloads, the values that occur in
the two runs are twins, at corresponding places.

`Evaluation.Reproduces V x y` is the relation of the two runs, one rule for every way in which
computations are put together. It goes in one direction, from a run that succeeds, and it uses that
what was read stays noted (`Evaluation.Grows`): the reads at the end say which answers are needed in
between.
-/

namespace Criteria

open Evaluation Json

/-- Two payloads give the same answer at a path: it leads nowhere in both, or to the same
content. -/
def SameAnswer (payload payload' : Value) (path : String) : Prop :=
  ∃ found found', payload.read path = .ok found ∧ payload'.read path = .ok found' ∧
    Option.Rel Value.Same found found'

/-- Two reads of the same content at the same path. -/
structure SameRead (read read' : String × Value) : Prop where
  path : read.1 = read'.1
  value : read.2.Same read'.2

theorem map_fst_of_sameRead {reads reads' : List (String × Value)}
    (h : List.Forall₂ SameRead reads reads') : reads.map Prod.fst = reads'.map Prod.fst := by
  induction h with
  | nil => rfl
  | cons hread _ ih => rw [List.map_cons, List.map_cons, hread.path, ih]

/-- Two traces with the same reads so far. -/
structure Trace.Twin (s t : Trace) : Prop where
  root : s.nextRoot = t.nextRoot
  root_pos : 0 < s.nextRoot
  reads : List.Forall₂ SameRead s.reads t.reads

theorem Trace.Twin.note {s t : Trace} (h : Trace.Twin s t) (path : String) {v w : Value}
    (hvalue : v.Same w) : Trace.Twin (s.note path v) (t.note path w) := by
  refine ⟨?_, ?_, ?_⟩
  · rw [nextRoot_note, nextRoot_note, h.root]
  · rw [nextRoot_note]
    exact h.root_pos
  · rw [reads_note, reads_note, map_fst_of_sameRead h.reads]
    split
    · exact h.reads
    · exact List.rel_append h.reads (.cons ⟨rfl, hvalue⟩ .nil)

namespace Evaluation

/-! ## What was read stays noted -/

/-- Every read of the trace is still in the trace after a run. -/
def Grows {α : Type} (x : Evaluation α) : Prop :=
  ∀ read, Keeps (read ∈ ·.reads) (fun _ => True) x

namespace Grows

variable {α β : Type}

theorem pure (a : α) : Grows (Pure.pure a : Evaluation α) := fun _ => .pure a

theorem bind {x : Evaluation α} {f : α → Evaluation β} (hx : Grows x) (hf : ∀ a, Grows (f a)) :
    Grows (x >>= f) := fun read => .bind (hx read) fun a _ => hf a read

theorem lift (outcome : Except EvaluationError α) : Grows (Evaluation.lift outcome) :=
  fun _ => .lift fun _ _ => trivial

theorem decideFirst {decider : Bool} {holds : Value → Evaluation Bool} {items : List Value}
    (h : ∀ item, Grows (holds item)) : Grows (Evaluation.decideFirst decider holds items) :=
  fun read => .decideFirst fun item _ => h item read

theorem eval (payload : Value) (value : Json) (scope : Scope) :
    Grows (Evaluation.eval payload value scope) := by
  intro read
  refine eval_keeps (fun _ => trivial) (fun path _ _ _ _ h => ?_) (fun _ h => h) scope
  exact mem_reads_note h path _

end Grows

/-! ## Two runs -/

section

variable {payload payload' : Value} {α α' β β' : Type}

/-- The payloads give the same answer to everything that was read. -/
def Explained (payload payload' : Value) (trace : Trace) : Prop :=
  ∀ read ∈ trace.reads, SameAnswer payload payload' read.1

/-- Where a run of `x` succeeds, and the payloads give the same answers to what was read by then, a
run of `y` from a twin of the trace succeeds too, with a related value and a twin of the trace. -/
def Reproduces (payload payload' : Value) (V : α → β → Prop) (x : Evaluation α)
    (y : Evaluation β) : Prop :=
  ∀ s t a s', Trace.Twin s t → x.run s = (.ok a, s') → Explained payload payload' s' →
    ∃ b t', y.run t = (.ok b, t') ∧ V a b ∧ Trace.Twin s' t'

namespace Reproduces

variable {V : α → β → Prop} {W : α' → β' → Prop}

theorem pure {a : α} {b : β} (h : V a b) :
    Reproduces payload payload' V (Pure.pure a : Evaluation α) (Pure.pure b) := by
  rintro s t _ _ htwin ⟨⟩ -
  exact ⟨b, t, rfl, h, htwin⟩

theorem fails (error : EvaluationError) (y : Evaluation β) :
    Reproduces payload payload' V (throw error : Evaluation α) y := by
  rintro s t _ _ - ⟨⟩

theorem lift {x : Except EvaluationError α} {y : Except EvaluationError β}
    (h : ∀ a, x = .ok a → ∃ b, y = .ok b ∧ V a b) :
    Reproduces payload payload' V (Evaluation.lift x) (Evaluation.lift y) := by
  intro s t a s' htwin hrun _
  obtain ⟨hx, rfl⟩ := Prod.mk.inj (show (x, s) = (.ok a, s') from hrun)
  obtain ⟨b, rfl, hvalue⟩ := h a hx
  exact ⟨b, t, rfl, hvalue, htwin⟩

theorem bind {x : Evaluation α} {y : Evaluation β} {f : α → Evaluation α'} {g : β → Evaluation β'}
    (hxy : Reproduces payload payload' V x y) (hf : ∀ a, Grows (f a))
    (hfg : ∀ a b, V a b → Reproduces payload payload' W (f a) (g b)) :
    Reproduces payload payload' W (x >>= f) (y >>= g) := by
  intro s t c s' htwin hrun hexplained
  rw [run_bind] at hrun
  rcases hx : x.run s with ⟨_ | a, s₁⟩
  · rw [hx] at hrun
    cases hrun
  · rw [hx] at hrun
    have hkept : Explained payload payload' s₁ := by
      intro read hread
      have hgrows := (hf a read s₁ hread).1
      simp only at hrun
      rw [hrun] at hgrows
      exact hexplained read hgrows
    obtain ⟨b, t₁, hy, hvalue, htwin₁⟩ := hxy s t a s₁ htwin hx hkept
    obtain ⟨d, t', hg, hresult, htwin'⟩ := hfg a b hvalue s₁ t₁ c s' htwin₁ hrun hexplained
    refine ⟨d, t', ?_, hresult, htwin'⟩
    rw [run_bind, hy]
    exact hg

theorem decideFirst {R : Value → Value → Prop} {decider : Bool}
    {holds holds' : Value → Evaluation Bool} {items items' : List Value}
    (hitems : List.Forall₂ R items items') (hgrows : ∀ item, Grows (holds item))
    (h : ∀ v w, R v w → Reproduces payload payload' Eq (holds v) (holds' w)) :
    Reproduces payload payload' Eq (Evaluation.decideFirst decider holds items)
      (Evaluation.decideFirst decider holds' items') := by
  induction hitems with
  | nil => exact .pure rfl
  | @cons _ _ rest _ hitem _ ih =>
    refine .bind (h _ _ hitem) (fun b => ?_) fun b _ hb => ?_
    · split
      · exact .pure _
      · exact .decideFirst hgrows
    · subst hb
      split
      · exact .pure rfl
      · exact ih

end Reproduces

end

/-! ## Expressions on two payloads -/

section

variable {p q : Json}

/-- Runs of two computations on two trees of data, in which values are twins at corresponding
places. -/
abbrev Explains {α β : Type} (p q : Json) (V : α → β → Prop) (x : Evaluation α)
    (y : Evaluation β) : Prop :=
  Reproduces (.ofJson ⟨0, []⟩ p) (.ofJson ⟨0, []⟩ q) V x y

theorem explains_newArray {items items' : List Value}
    (h : List.Forall₂ (Value.Twin (Corresponds p q)) items items') :
    Explains p q (Value.Twin (Corresponds p q)) (newArray items) (newArray items') := by
  rintro s t _ _ htwin ⟨⟩ -
  refine ⟨_, _, rfl, ?_, ⟨?_, Nat.succ_pos _, htwin.reads⟩⟩
  · rw [← htwin.root]
    exact .array_of_forall₂ (.inr ⟨rfl, htwin.root_pos⟩) h
  · simp only [htwin.root]

theorem noted_same {v w : Value} (h : v.Same w) : v.noted.Same w.noted := by
  cases h with
  | missing => exact .scalar .null
  | scalar value => exact .scalar value
  | array hmark hlength hitems => exact .array hmark hlength hitems
  | object hmark hnames hentries => exact .object hmark hnames hentries

/-- **A variable reads twins**, when the payloads give the same answer to what is noted. -/
theorem explains_readVariable {scope scope' : Scope}
    (h : List.Forall₂ (Frame.Twin (Corresponds p q)) scope scope') (path : String) :
    Explains p q (Value.Twin (Corresponds p q)) (readVariable (.ofJson ⟨0, []⟩ p) scope path)
      (readVariable (.ofJson ⟨0, []⟩ q) scope' path) := by
  intro s t v s' htwin hrun hexplained
  have hresolve := Scope.resolve_twin h path
  rcases run_readVariable_ok hrun with ⟨hserved, rfl⟩ | ⟨hnone, found, hread, rfl, rfl⟩
  · rw [hserved] at hresolve
    generalize hserved' : scope'.resolve path = outcome at hresolve
    cases hresolve with | ok hfound =>
    cases hfound with | some hvalue =>
    exact ⟨_, t, run_readVariable_served hserved' t, hvalue, htwin⟩
  · rw [hnone] at hresolve
    generalize hnone' : scope'.resolve path = outcome at hresolve
    cases hresolve with | ok hfound =>
    cases hfound with | none =>
    -- the path is noted, so the other payload gives the same answer
    obtain ⟨noted, hnoted⟩ := exists_mem_reads_note path (found.getD .missing).noted s
    obtain ⟨found₁, found', hread₁, hread', hsame⟩ := hexplained _ hnoted
    cases hread.symm.trans hread₁
    refine ⟨_, _, run_readVariable_read hnone' hread' t, ?_, htwin.note path ?_⟩
    · cases hsame with
      | none => exact .missing
      | some hvalue => exact Value.twin_of_read hread hread' hvalue
    · cases hsame with
      | none => exact noted_same .missing
      | some hvalue => exact noted_same hvalue

theorem explains_evalItems {items : List Json} {scope scope' : Scope}
    (h : ∀ item ∈ items, Explains p q (Value.Twin (Corresponds p q))
      (eval (.ofJson ⟨0, []⟩ p) item scope) (eval (.ofJson ⟨0, []⟩ q) item scope')) :
    Explains p q (List.Forall₂ (Value.Twin (Corresponds p q)))
      (evalItems (.ofJson ⟨0, []⟩ p) items scope) (evalItems (.ofJson ⟨0, []⟩ q) items scope') := by
  induction items with
  | nil => exact .pure .nil
  | cons item rest ih =>
    obtain ⟨hitem, hrest⟩ := List.forall_mem_cons.1 h
    refine .bind hitem (fun _ => .bind ?_ fun _ => .pure _) fun v w hvalue => ?_
    · exact fun read => evalItems_keeps fun item _ => Grows.eval _ item scope read
    · exact .bind (ih hrest) (fun _ => .pure _) fun _ _ hvalues => .pure (.cons hvalue hvalues)

theorem explains_evalFirst {decider : Bool} {items : List Json} {scope scope' : Scope}
    (h : ∀ item ∈ items, Explains p q (Value.Twin (Corresponds p q))
      (eval (.ofJson ⟨0, []⟩ p) item scope) (eval (.ofJson ⟨0, []⟩ q) item scope')) :
    Explains p q Eq (evalFirst (.ofJson ⟨0, []⟩ p) decider items scope)
      (evalFirst (.ofJson ⟨0, []⟩ q) decider items scope') := by
  induction items with
  | nil => exact .pure rfl
  | cons item rest ih =>
    obtain ⟨hitem, hrest⟩ := List.forall_mem_cons.1 h
    refine .bind hitem (fun value => ?_) fun v w hvalue => ?_
    · split
      · exact .pure _
      · exact fun read => evalFirst_keeps fun item _ => Grows.eval _ item scope read
    · rw [hvalue.truthy]
      split
      · exact .pure rfl
      · exact ih hrest

/-- **An evaluation is explained by its reads**, inside twin elements. -/
theorem explains_eval (value : Json) {scope scope' : Scope}
    (h : List.Forall₂ (Frame.Twin (Corresponds p q)) scope scope') :
    Explains p q (Value.Twin (Corresponds p q)) (eval (.ofJson ⟨0, []⟩ p) value scope)
      (eval (.ofJson ⟨0, []⟩ q) value scope') := by
  induction value using induction_on_forms generalizing scope scope' with
  | scalar value => exact .pure (.scalar value)
  | array items ih =>
    refine .bind (explains_evalItems fun item hitem => ih item hitem h) (fun _ read => ?_)
      fun _ _ hitems => explains_newArray hitems
    exact fun trace hread => ⟨hread, fun _ _ => trivial⟩
  | connective c items ih =>
    rw [eval_connective, eval_connective]
    refine .bind (explains_evalFirst fun item hitem => ih item hitem h) (fun _ => .pure _) ?_
    rintro b _ rfl
    exact .pure (.scalar _)
  | single c operand hoperand ih =>
    rw [eval_single c hoperand, eval_single c hoperand]
    refine .bind (ih h) (fun _ => .pure _) fun v w hvalue => ?_
    rw [hvalue.truthy]
    exact .pure (.scalar _)
  | not operand ih =>
    refine .bind (ih h) (fun _ => .pure _) fun v w hvalue => ?_
    rw [hvalue.truthy]
    exact .pure (.scalar _)
  | var operand path hpath =>
    rw [eval_variable hpath, eval_variable hpath]
    exact explains_readVariable h path
  | compare c left right hl hr =>
    rw [eval_compare, eval_compare]
    have hlift (l r : Value) : Grows (do return Value.bool (← lift (compareValues c l r))) :=
      .bind (.lift _) fun _ => .pure _
    refine .bind (hl h) (fun l => .bind (.eval _ _ _) fun r => hlift l r) fun l l' hleft => ?_
    refine .bind (hr h) (hlift l) fun r r' hright => ?_
    rw [hleft.compareValues (oneToOne_corresponds p q) c hright]
    refine .bind (V := Eq) (.lift fun b hb => ⟨b, hb, rfl⟩) (fun _ => .pure _) ?_
    rintro b _ rfl
    exact .pure (.scalar _)
  | quantify q source predicate more hmore hs hp =>
    rw [eval_quantify _ _ _ hmore, eval_quantify _ _ _ hmore]
    have hholds (item : Value) : Grows (do
        return (← eval (.ofJson ⟨0, []⟩ p) predicate
          (⟨item, some (Logic.aliasName more)⟩ :: scope)).truthy) :=
      .bind (.eval _ _ _) fun _ => .pure _
    have hdecide (items : List Value) : Grows (do
        return Value.bool (← decideFirst q.decider _ items)) :=
      .bind (.decideFirst hholds) fun _ => .pure _
    refine .bind (hs h) (fun _ => .bind (.lift _) hdecide) fun v w hvalue => ?_
    refine .bind (.lift fun items hitems => hvalue.elements hitems) hdecide
      fun items items' hitems => ?_
    refine .bind (.decideFirst hitems hholds fun v w hitem => ?_) (fun _ => .pure _) ?_
    · refine .bind (hp (.cons ⟨rfl, hitem⟩ h)) (fun _ => .pure _) fun v w hvalue => ?_
      exact .pure hvalue.truthy
    · rintro b _ rfl
      exact .pure (.scalar _)
  | malformed value error hmalformed =>
    rw [hmalformed.eval_eq]
    exact .fails error _

end

end Evaluation

/-- **The reads explain the verdict.** On a payload that gives the same answers at the paths that
were read, a condition has the same truth and the same reads, whatever else differs. -/
theorem evaluate_of_sameAnswers {logic p q : Json} {room : Nat} {verdict : Verdict}
    (h : evaluate logic p room = .ok verdict)
    (hsame : ∀ read ∈ verdict.reads,
      SameAnswer (.ofJson ⟨0, []⟩ p) (.ofJson ⟨0, []⟩ q) read.1) :
    ∃ verdict', evaluate logic q room = .ok verdict' ∧ verdict'.holds = verdict.holds ∧
      List.Forall₂ SameRead verdict.reads verdict'.reads := by
  unfold evaluate evaluateOn at h ⊢
  split at h
  · cases h
  rename_i hheight
  have hjudge := mapError_ok h
  rw [judge] at hjudge
  split at hjudge
  · rename_i value trace hrun
    cases hjudge
    have hnone : List.Forall₂ (Frame.Twin (Corresponds p q)) [] [] := .nil
    obtain ⟨w, t, hrun', hvalue, htwin⟩ :=
      explains_eval logic hnone .start .start value trace ⟨rfl, Nat.one_pos, .nil⟩ hrun hsame
    refine ⟨⟨w.truthy, t.reads⟩, ?_, hvalue.truthy.symm, htwin.reads⟩
    rw [if_neg hheight, judge, hrun']
    rfl
  · cases hjudge

/-- The order is one object, and some item has the id that is wanted. -/
def wantedLogic : Json :=
  .object [("and", .array [
    .object [("==", .array
      [.object [("var", .string "order")], .object [("var", .string "order")]])],
    .object [("some", .array [.object [("var", .string "items")],
      .object [("==", .array [.object [("var", .string "item.id")],
        .object [("var", .string "wanted")]])]])]])]

/-- Two items with ids. -/
def wantedItems : Json := .array [.object [("id", .int 7)], .object [("id", .int 8)]]

/-- Data with an order, items and a wanted id. -/
def wantedPayload : Json :=
  .object [("order", .object []), ("items", wantedItems), ("wanted", .int 7)]

/-- The same among other data, in another order. -/
def wantedElsewhere : Json :=
  .object [("stock", .int 0), ("wanted", .int 7), ("items", wantedItems), ("order", .object [])]

theorem evaluate_of_sameAnswers_wanted :
    ∃ verdict verdict', evaluate wantedLogic wantedPayload = .ok verdict ∧
      verdict.reads.map Prod.fst = ["order", "items", "wanted"] ∧
      evaluate wantedLogic wantedElsewhere = .ok verdict' ∧ verdict'.holds = verdict.holds ∧
      List.Forall₂ SameRead verdict.reads verdict'.reads := by
  obtain ⟨verdict, hverdict, hreads⟩ : ∃ verdict, evaluate wantedLogic wantedPayload = .ok verdict ∧
      verdict.reads.map Prod.fst = ["order", "items", "wanted"] := ⟨_, rfl, rfl⟩
  have hanswers : ∀ path ∈ ["order", "items", "wanted"],
      SameAnswer (.ofJson ⟨0, []⟩ wantedPayload) (.ofJson ⟨0, []⟩ wantedElsewhere) path := by
    simp only [List.forall_mem_cons]
    exact ⟨⟨_, _, rfl, rfl, .some (Value.same_ofJson ⟨0, [0]⟩ ⟨0, [3]⟩ (.object []))⟩,
      ⟨_, _, rfl, rfl, .some (Value.same_ofJson ⟨0, [1]⟩ ⟨0, [2]⟩ wantedItems)⟩,
      ⟨_, _, rfl, rfl, .some (Value.same_ofJson ⟨0, [2]⟩ ⟨0, [1]⟩ (.int 7))⟩, nofun⟩
  obtain ⟨verdict', hverdict', hholds, hsame⟩ := evaluate_of_sameAnswers hverdict fun read hread =>
    hanswers read.1 (hreads ▸ List.mem_map_of_mem hread)
  exact ⟨verdict, verdict', hverdict, hreads, hverdict', hholds, hsame⟩

end Criteria
