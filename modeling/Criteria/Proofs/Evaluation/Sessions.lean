import Criteria.Proofs.Evaluation.Renumbering

/-!
# Sessions

Several evaluations on one payload share their trace, also when some of them fail. Each of them has
the outcome that it has on its own, and the reads of the session are those of the single evaluations,
one after the other, without repeats (`Session.eval_independent`). So every path of the payload is
noted once, with what the payload has there, and it is a path of one of the expressions.

The elements around an expression may live anywhere (`Session.call`), for example in the payload or
in the elements of an earlier call; `Session.eval` puts them in trees of their own first. Then an
evaluation on its own uses lower numbers for them, and its outcome is renumbered
(`Evaluation.lockstep_renumber`).
-/

namespace Criteria

open Evaluation

/-! ## Calls -/

/-- An expression, elements around it that live anywhere, and the number of the tree of the next new
array. -/
structure Call where
  logic : Json
  scope : Scope
  root : Nat

namespace Session

/-- Evaluates a call on the payload of a session, whose reads go on. -/
def call (session : Session) (call : Call) : Except EvaluationError Value × Session :=
  let (outcome, trace) :=
    (Evaluation.eval session.payload call.logic call.scope).run ⟨session.trace.reads, call.root⟩
  (outcome, { session with trace })

/-- The session after some calls. -/
def afterCalls (session : Session) (calls : List Call) : Session :=
  calls.foldl (fun session call => (session.call call).2) session

/-- The session after the evaluation of some expressions inside some elements. -/
def after (session : Session) (steps : List (Json × Scope)) : Session :=
  steps.foldl (fun session step => (session.eval step.1 step.2).2) session

/-- The elements of an evaluation, put in trees of their own. -/
def placed (session : Session) (logic : Json) (scope : Scope) : Call :=
  ⟨logic, place session.trace.nextRoot scope, session.trace.nextRoot + scope.length⟩

theorem eval_eq_call (session : Session) (logic : Json) (scope : Scope) :
    session.eval logic scope = session.call (session.placed logic scope) := rfl

theorem after_concat (session : Session) (steps : List (Json × Scope)) (step : Json × Scope) :
    session.after (steps ++ [step]) = ((session.after steps).eval step.1 step.2).2 :=
  List.foldl_concat ..

theorem afterCalls_concat (session : Session) (calls : List Call) (call : Call) :
    session.afterCalls (calls ++ [call]) = ((session.afterCalls calls).call call).2 :=
  List.foldl_concat ..

end Session

/-! ## One call -/

namespace Call

variable {f : Nat → Nat} {payload : Value}

/-- The call, in trees of other numbers. -/
def renumber (f : Nat → Nat) (call : Call) : Call :=
  ⟨call.logic, call.scope.map (Frame.renumber f), f call.root⟩

theorem renumber_id (call : Call) : call.renumber id = call := by
  have hframe : Frame.renumber id = id := by
    funext frame
    rw [Frame.renumber, Value.renumber_id, id]
  rw [renumber, hframe, List.map_id, id]

/-- The outcome of the call on its own. -/
def outcome (payload : Value) (call : Call) : Except EvaluationError Value :=
  (Session.call ⟨payload, .start⟩ call).1

/-- The reads of the call on its own. -/
def log (payload : Value) (call : Call) : List (String × Value) :=
  (Session.call ⟨payload, .start⟩ call).2.trace.reads

/-- **A call in a session does what it does on its own**, up to the numbers of the trees, and its
reads come after those of the session. -/
theorem independent (hf : Function.Injective f) (hpayload : payload.renumber f = payload)
    {call : Call} (hroots : ∀ i, f (call.root + i) = f call.root + i) {session : Session}
    (hsession : session.payload = payload) {old : List (String × Value)}
    (hreads : session.trace.reads = firstsBy Prod.fst old) :
    (session.call (call.renumber f)).1 = (call.outcome payload).map (Value.renumber f) ∧
      (session.call (call.renumber f)).2.trace.reads =
        firstsBy Prod.fst (old ++ call.log payload) := by
  subst hsession
  obtain ⟨hpaired, hnext⟩ := lockstep_renumber hf hpayload call.logic call.scope
    ⟨[], call.root⟩ ⟨session.trace.reads, f call.root⟩ ⟨hroots, by rw [List.append_nil, hreads]⟩
  exact ⟨hpaired.eq_map, hnext.reads⟩

end Call

/-! ## The reads of a session -/

/-- What was read is what the payload has there, a missing value as `null`. -/
def Value.Served (payload : Value) (read : String × Value) : Prop :=
  ∃ found, payload.read read.1 = .ok found ∧ read.2 = (found.getD .missing).noted

/-- Reads are those of several evaluations in sequence, each given by its expression and by what it
reads on its own: without repeats, each with what the payload has there, and at paths of the
expressions. -/
structure Merges (payload : Value) (logs : List (Json × List (String × Value)))
    (reads : List (String × Value)) : Prop where
  sequence : reads = firstsBy Prod.fst (logs.flatMap Prod.snd)
  distinct : (reads.map Prod.fst).Nodup
  served : ∀ read ∈ reads, payload.Served read
  occurs : ∀ read ∈ reads, ∃ log ∈ logs, read.1 ∈ Logic.variablePaths log.1

namespace Call

variable {payload : Value}

theorem served_of_mem_log {call : Call} : ∀ read ∈ call.log payload,
    payload.Served read ∧ read.1 ∈ Logic.variablePaths call.logic := by
  have hkeeps : Keeps (fun trace => ∀ read ∈ trace.reads,
      payload.Served read ∧ read.1 ∈ Logic.variablePaths call.logic) (fun _ => True)
      (Evaluation.eval payload call.logic call.scope) := by
    refine eval_keeps (fun _ => trivial) (fun path hpath found trace hread h => ?_)
      (fun _ h => h) call.scope
    rw [reads_note]
    split
    · exact h
    · exact List.forall_mem_append.2
        ⟨h, List.forall_mem_singleton.2 ⟨⟨found, hread, rfl⟩, hpath⟩⟩
  exact (hkeeps ⟨[], call.root⟩ (List.forall_mem_nil _)).1

/-- The reads of calls in sequence are sound. -/
theorem merges_of_sequence {calls : List Call} {reads : List (String × Value)}
    (h : reads = firstsBy Prod.fst (calls.flatMap (·.log payload))) :
    Merges payload (calls.map fun call => (call.logic, call.log payload)) reads := by
  have hmem : ∀ read ∈ reads, ∃ call ∈ calls, read ∈ call.log payload := by
    intro read hread
    rw [h] at hread
    exact List.mem_flatMap.1 ((firstsBy_sublist _ _).subset hread)
  refine ⟨?_, ?_, fun read hread => ?_, fun read hread => ?_⟩
  · rw [h, List.flatMap_map]
  · rw [h]
    exact nodup_map_firstsBy _ _
  · obtain ⟨call, -, hlog⟩ := hmem read hread
    exact (served_of_mem_log read hlog).1
  · obtain ⟨call, hcall, hlog⟩ := hmem read hread
    exact ⟨_, List.mem_map_of_mem hcall, (served_of_mem_log read hlog).2⟩

end Call

/-! ## Elements in trees of their own -/

/-- Other numbers, the given distance away, for all trees but the one of number zero. -/
def shiftRoots (distance root : Nat) : Nat := if root = 0 then 0 else root + distance

theorem shiftRoots_of_pos {root : Nat} (h : 0 < root) (distance : Nat) :
    shiftRoots distance root = root + distance := if_neg (Nat.pos_iff_ne_zero.1 h)

theorem shiftRoots_injective (distance : Nat) : Function.Injective (shiftRoots distance) := by
  intro m n h
  unfold shiftRoots at h
  split at h <;> split at h <;> omega

namespace Session

variable {payload : Value} {session : Session}

theorem place_shiftRoots {root : Nat} (h : 0 < root) (distance : Nat) (scope : Scope) :
    place (root + distance) scope =
      (place root scope).map (Frame.renumber (shiftRoots distance)) := by
  induction scope generalizing root with
  | nil => rfl
  | cons frame outer ih =>
    rw [place, place, List.map_cons, Nat.add_right_comm, ih (Nat.succ_pos root), Frame.renumber,
      Value.renumber_moveTo, Mark.renumber, shiftRoots_of_pos h]

/-- What a session evaluates is what a new one does, in trees further on. -/
theorem placed_eq_renumber (h : 0 < session.trace.nextRoot) (logic : Json) (scope : Scope) :
    session.placed logic scope =
      ((start payload).placed logic scope).renumber (shiftRoots (session.trace.nextRoot - 1)) := by
  have hroot : session.trace.nextRoot = 1 + (session.trace.nextRoot - 1) := by omega
  rw [placed, hroot, Nat.add_sub_cancel_left, place_shiftRoots Nat.one_pos, Call.renumber, placed]
  simp only [start, Trace.start, shiftRoots_of_pos (Nat.add_pos_left Nat.one_pos _)]
  rw [Nat.add_right_comm]

/-- The number of the next tree is never that of the payload. -/
theorem nextRoot_pos_eval (h : 0 < session.trace.nextRoot) (logic : Json) (scope : Scope) :
    0 < (session.eval logic scope).2.trace.nextRoot := by
  have hkeeps : Keeps (0 < ·.nextRoot) (fun _ => True)
      (Evaluation.eval session.payload logic (place session.trace.nextRoot scope)) := by
    refine eval_keeps (fun _ => trivial) (fun path _ _ trace _ hpos => ?_)
      (fun _ _ => Nat.succ_pos _) _
    rw [nextRoot_note]
    exact hpos
  exact (hkeeps _ (Nat.add_pos_left h _)).1

/-! ## Sessions -/

/-- The session is on the payload, and has the reads of some evaluations. -/
structure HasRead (payload : Value) (old : List (String × Value)) (session : Session) : Prop where
  payload : session.payload = payload
  reads : session.trace.reads = firstsBy Prod.fst old

variable {old : List (String × Value)}

/-- A call has its own outcome, and its reads come last. -/
theorem HasRead.call (h : session.HasRead payload old) (call : Call) :
    (session.call call).1 = call.outcome payload ∧
      (session.call call).2.HasRead payload (old ++ call.log payload) := by
  obtain ⟨houtcome, hreads⟩ := call.independent Function.injective_id payload.renumber_id
    (fun _ => rfl) h.payload h.reads
  rw [call.renumber_id] at houtcome hreads
  refine ⟨houtcome.trans ?_, h.payload, hreads⟩
  rw [funext Value.renumber_id]
  cases call.outcome payload <;> rfl

/-- An evaluation has its own outcome, up to the numbers of trees, and its reads come last. -/
theorem HasRead.eval (h : session.HasRead (payload.moveTo ⟨0, []⟩) old)
    (hroot : 0 < session.trace.nextRoot) (logic : Json) (scope : Scope) :
    (session.eval logic scope).1 = ((start payload).eval logic scope).1.map
        (Value.renumber (shiftRoots (session.trace.nextRoot - 1))) ∧
      (session.eval logic scope).2.HasRead (payload.moveTo ⟨0, []⟩)
        (old ++ ((start payload).eval logic scope).2.trace.reads) := by
  rw [eval_eq_call, placed_eq_renumber hroot]
  have hpayload : (payload.moveTo ⟨0, []⟩).renumber (shiftRoots (session.trace.nextRoot - 1)) =
      payload.moveTo ⟨0, []⟩ := payload.renumber_moveTo _
  have hpos : 0 < ((start payload).placed logic scope).root := Nat.add_pos_left Nat.one_pos _
  obtain ⟨houtcome, hreads⟩ := ((start payload).placed logic scope).independent
    (shiftRoots_injective _) hpayload (fun i => by
      rw [shiftRoots_of_pos hpos, shiftRoots_of_pos (Nat.add_pos_left hpos _), Nat.add_right_comm])
    h.payload h.reads
  exact ⟨houtcome, h.payload, hreads⟩

/-- After some calls, a session has their reads in sequence. -/
theorem hasRead_afterCalls (payload : Value) (calls : List Call) :
    (afterCalls ⟨payload, .start⟩ calls).HasRead payload (calls.flatMap (·.log payload)) := by
  induction calls using List.reverseRecOn with
  | nil => exact ⟨rfl, rfl⟩
  | append_singleton calls call ih =>
    rw [afterCalls_concat, List.flatMap_append, List.flatMap_singleton]
    exact (ih.call call).2

/-- After some evaluations, a session has their reads in sequence. -/
theorem hasRead_after (payload : Value) (steps : List (Json × Scope)) :
    ((start payload).after steps).HasRead (payload.moveTo ⟨0, []⟩)
        (steps.flatMap fun step => ((start payload).eval step.1 step.2).2.trace.reads) ∧
      0 < ((start payload).after steps).trace.nextRoot := by
  induction steps using List.reverseRecOn with
  | nil => exact ⟨⟨rfl, rfl⟩, Nat.one_pos⟩
  | append_singleton steps step ih =>
    rw [after_concat, List.flatMap_append, List.flatMap_singleton]
    exact ⟨(ih.1.eval ih.2 step.1 step.2).2, nextRoot_pos_eval ih.2 step.1 step.2⟩

/-- **Evaluations of a session are independent.** After any evaluations, failed ones among them, the
next one has the outcome that it has in a new session, up to the numbers of the trees of the
elements and of new arrays; with elements that live anywhere, for which trees are not numbered anew,
the outcome is the same. The reads are those of the evaluations on their own, in sequence: each path
once, with what the payload has there, and at paths of the expressions. -/
theorem eval_independent (payload : Value) :
    (∀ (steps : List (Json × Scope)) (logic : Json) (scope : Scope),
      let session := (start payload).after steps
      let own := fun step : Json × Scope => (start payload).eval step.1 step.2
      (∃ f : Nat → Nat, Function.Injective f ∧ f 0 = 0 ∧
        (session.eval logic scope).1 = (own (logic, scope)).1.map (Value.renumber f)) ∧
      Merges (payload.moveTo ⟨0, []⟩)
        (steps.map fun step => (step.1, (own step).2.trace.reads)) session.trace.reads) ∧
    ∀ (calls : List Call) (next : Call),
      let session := afterCalls ⟨payload, .start⟩ calls
      (session.call next).1 = next.outcome payload ∧
      Merges payload (calls.map fun call => (call.logic, call.log payload)) session.trace.reads := by
  refine ⟨fun steps logic scope => ?_, fun calls next => ?_⟩
  · obtain ⟨hread, hroot⟩ := hasRead_after payload steps
    refine ⟨⟨_, shiftRoots_injective _, rfl, (hread.eval hroot logic scope).1⟩, ?_⟩
    have hsequence : ((start payload).after steps).trace.reads = firstsBy Prod.fst
        ((steps.map fun step => (start payload).placed step.1 step.2).flatMap
          (·.log (payload.moveTo ⟨0, []⟩))) := by
      rw [List.flatMap_map]
      exact hread.reads
    have hmerges := Call.merges_of_sequence hsequence
    rwa [List.map_map] at hmerges
  · have hread := hasRead_afterCalls payload calls
    exact ⟨(hread.call next).1, Call.merges_of_sequence hread.reads⟩

/-- The second evaluation fails, since `b` is no array; the third finds `b` among the reads. -/
example :
    let reference := fun path => Json.object [("var", .string path)]
    let payload := Value.object ⟨0, []⟩ [("a", .bool false), ("b", .bool true)]
    let session := (start payload).after [
      (.object [("or", .array [reference "a", reference "b"])], []),
      (.object [("some", .array [reference "b", reference "item"])], []),
      (.object [("and", .array [reference "b", reference "c"])], [])]
    session.trace.reads = [("a", .bool false), ("b", .bool true), ("c", .scalar .null)] := by
  rfl

end Session
end Criteria
