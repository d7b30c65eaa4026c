import Criteria.Evaluation.Value
import Criteria.Logic.Basic
import Criteria.ValueFault

/-!
# Evaluating JSON-Logic

`Evaluation.eval` runs an expression against a payload. Connectives and quantifiers stop at the
first operand or element that decides them. Every variable that is served by the payload, and not by
the element of a quantifier around it, is noted in the trace; the trace survives a failure.

* `Scope`: the elements of the quantifiers around an expression, innermost first;
* `Scope.resolve`: what a path means inside them;
* `evaluate`: the truth of a condition on a payload, with the variables that were read.
-/

namespace Criteria

namespace EvaluationError

/-- The wording of a failure. -/
def message : EvaluationError → String
  | .notOneKey => "Invalid JSON-Logic expression."
  | .unsupported key => s!"Unsupported operator `{key}` in evaluator."
  | .badVariable => "Invalid `var` operand."
  | .badPath => "Invalid `var` operand; expected string path."
  | .comparisonOperands c => s!"Operator `{c.symbol}` expects two operands."
  | .quantifierOperands q => s!"Operator `{q.symbol}` expects [source, predicate, alias?] operands."
  | .notAnArray q path kind =>
    let reference := match path with
      | some path => if path = "" then "first operand" else s!"path \"{path}\""
      | none => "first operand"
    s!"Operator `{q.symbol}` expected {reference} to resolve to an array, received {kind}."
  | .numberTooLarge => ValueFault.tooLarge.message
  | .indexTooLong digits => (ValueFault.manyDigits digits).message

/-- The failure comes from a number that cannot be computed with, not from the expression or the
data being of the wrong form. -/
def isNumeric : EvaluationError → Bool
  | .numberTooLarge => true
  | .indexTooLong _ => true
  | _ => false

end EvaluationError

/-- An element of a collection, under the name that the quantifier gives it. -/
structure Frame where
  value : Value
  /-- The name of the element; without one it is only read inside. -/
  name : Option String

/-- The elements around an expression, innermost first. -/
abbrev Scope := List Frame

namespace Frame

/-- The value that a path means in a frame: the element when the path is its name; otherwise what
follows the name, or else the whole path, read inside the element. -/
def resolve (frame : Frame) (path : String) : Except EvaluationError (Option Value) := do
  match frame.name with
  | some name =>
    if name ≠ "" then
      if path = name then return some frame.value
      if let some rest := Path.after? name path then
        if let some value ← frame.value.read rest then return some value
  | none => pure ()
  frame.value.read path

end Frame

namespace Scope

/-- The value that a path means in the innermost frame in which it means one. -/
def resolve (path : String) : Scope → Except EvaluationError (Option Value)
  | [] => .ok none
  | frame :: outer => do
    match ← frame.resolve path with
    | some value => return some value
    | none => resolve path outer

end Scope

/-- What an evaluation leaves behind. -/
structure Trace where
  /-- The paths that the payload served, with their values, in the order of the first reads. -/
  reads : List (String × Value)
  /-- The number of the next tree of data. -/
  nextRoot : Nat

namespace Trace

/-- Before anything was read; the payload is the tree of number zero. -/
def start : Trace := ⟨[], 1⟩

/-- Notes that the payload served a path. -/
def note (path : String) (value : Value) (trace : Trace) : Trace :=
  if trace.reads.any (·.1 == path) then trace
  else { trace with reads := trace.reads ++ [(path, value)] }

end Trace

/-- A computation that may fail and leaves a trace in either case. -/
abbrev Evaluation := ExceptT EvaluationError (StateM Trace)

namespace Connective

/-- The truth of an operand that decides the whole. -/
def decider : Connective → Bool
  | .and => false
  | .or => true

end Connective

namespace Quantifier

/-- The truth of an element's condition that decides the whole. -/
def decider : Quantifier → Bool
  | .any => true
  | .all => false

end Quantifier

namespace Evaluation

/-- The outcome of a computation without trace. -/
def lift {α : Type} (outcome : Except EvaluationError α) : Evaluation α := ExceptT.mk (pure outcome)

/-- A new array, which lives where nothing else does. -/
def newArray (items : List Value) : Evaluation Value := do
  let trace ← get
  set { trace with nextRoot := trace.nextRoot + 1 }
  return .array ⟨trace.nextRoot, []⟩ items

/-- The value of a variable: from the elements around the expression, or else from the payload. What
the payload serves is noted, a missing value as `null`. -/
def readVariable (payload : Value) (scope : Scope) (path : String) : Evaluation Value := do
  match ← lift (scope.resolve path) with
  | some value => return value
  | none =>
    let value := (← lift (payload.read path)).getD .missing
    modify (Trace.note path (match value with
      | .missing => .scalar .null
      | value => value))
    return value

/-- The value of a comparison of two values. -/
def compareValues (c : Comparison) (left right : Value) : Except EvaluationError Bool :=
  match c with
  | .eq => .ok (left.strictEq right)
  | .ne => .ok !(left.strictEq right)
  | .lt => ordered (· == .lt)
  | .le => ordered (· != .gt)
  | .gt => ordered (· == .gt)
  | .ge => ordered (· != .lt)
where
  /-- The order of the two numbers passes a test; numbers without order pass none. -/
  ordered (test : Ordering → Bool) : Except EvaluationError Bool := do
    let a ← left.toNumber
    let b ← right.toNumber
    return (a.compare? b).any test

/-- The elements that a quantifier ranges over. What is `null` or missing has none. -/
def elements (q : Quantifier) (path : Option String) : Value → Except EvaluationError (List Value)
  | .missing => .ok []
  | .scalar .null => .ok []
  | .array _ items => .ok items
  | value => .error (.notAnArray q path value.kind)

/-- Tries values in order until the condition of one is the deciding truth value. -/
def decideFirst (decider : Bool) (holds : Value → Evaluation Bool) : List Value → Evaluation Bool
  | [] => return !decider
  | value :: rest => do
    if (← holds value) = decider then return decider else decideFirst decider holds rest

mutual

/-- The value of an expression inside the given elements. -/
def eval (payload : Value) : Json → Scope → Evaluation Value
  | .scalar value, _ => return .scalar value
  | .array items, scope => do newArray (← evalItems payload items scope)
  | .object [(key, operand)], scope =>
    match Operation.ofKey? key with
    | none => throw (.unsupported key)
    | some (.logical c) =>
      match operand with
      | .array items => do return .bool (← evalFirst payload c.decider items scope)
      | .scalar value => return .bool (Value.scalar value).truthy
      | .object fields => do return .bool (← eval payload (.object fields) scope).truthy
    | some .not => do return .bool !(← eval payload operand scope).truthy
    | some .variable =>
      match Logic.variablePath? operand with
      | some path => readVariable payload scope path
      | none =>
        match operand with
        | .array (_ :: _) => throw .badPath
        | _ => throw .badVariable
    | some (.compare c) =>
      match operand with
      | .array [first, second] => do
        let left ← eval payload first scope
        let right ← eval payload second scope
        return .bool (← lift (compareValues c left right))
      | _ => throw (.comparisonOperands c)
    | some (.quantify q) =>
      match operand with
      | .array [source, predicate] => do
        let items ← lift (elements q (Logic.referencePath? source) (← eval payload source scope))
        return .bool (← decideFirst q.decider
          (fun item => do
            return (← eval payload predicate (⟨item, some defaultAlias⟩ :: scope)).truthy) items)
      | .array [source, predicate, third] => do
        let items ← lift (elements q (Logic.referencePath? source) (← eval payload source scope))
        return .bool (← decideFirst q.decider
          (fun item => do
            return (← eval payload predicate
              (⟨item, some (Logic.aliasName [third])⟩ :: scope)).truthy) items)
      | _ => throw (.quantifierOperands q)
  | .object _, _ => throw .notOneKey

/-- The values of some items. -/
def evalItems (payload : Value) : List Json → Scope → Evaluation (List Value)
  | [], _ => return []
  | item :: rest, scope => do
    let value ← eval payload item scope
    return value :: (← evalItems payload rest scope)

/-- Evaluates operands in order until the truth of one decides. -/
def evalFirst (payload : Value) (decider : Bool) : List Json → Scope → Evaluation Bool
  | [], _ => return !decider
  | operand :: rest, scope => do
    if (← eval payload operand scope).truthy = decider then return decider
    else evalFirst payload decider rest scope

end

end Evaluation

/-! ## Conditions and sessions -/

/-- The truth of a condition, and the variables that were read for it. -/
structure Verdict where
  holds : Bool
  reads : List (String × Value)

/-- Why a condition has no truth. -/
inductive ConditionFailure
  | failed (error : EvaluationError)
  /-- The expression is nested too deeply. -/
  | tooDeep

/-- The wording of a failure. -/
def ConditionFailure.message : ConditionFailure → String
  | .failed error =>
    if error.isNumeric then s!"Condition evaluation failed: {error.message}" else error.message
  | .tooDeep => "Condition is nested too deeply to evaluate."

/-- The truth of a condition on a payload. -/
def judge (logic : Json) (payload : Value) : Except EvaluationError Verdict :=
  match (Evaluation.eval payload logic []).run Trace.start with
  | (.ok value, trace) => .ok ⟨value.truthy, trace.reads⟩
  | (.error error, _) => .error error

/-- The truth of a condition on a payload, when there is room for how deep the condition is
nested. -/
def evaluateOn (logic : Json) (payload : Value) (room : Nat := Logic.maxHeight) :
    Except ConditionFailure Verdict :=
  if room < logic.height then .error .tooDeep else (judge logic payload).mapError .failed

/-- The truth of a condition on a payload that is data. -/
def evaluate (logic payload : Json) (room : Nat := Logic.maxHeight) :
    Except ConditionFailure Verdict :=
  evaluateOn logic (.ofJson ⟨0, []⟩ payload) room

/-- Several evaluations on one payload, which share their trace. -/
structure Session where
  payload : Value
  trace : Trace

namespace Session

/-- A session in which nothing was evaluated yet. -/
def start (payload : Value) : Session := ⟨payload.moveTo ⟨0, []⟩, .start⟩

/-- Gives every frame a tree of its own, from the given number on. -/
def place (root : Nat) : Scope → Scope
  | [] => []
  | frame :: outer => { frame with value := frame.value.moveTo ⟨root, []⟩ } :: place (root + 1) outer

/-- Evaluates an expression inside some frames, innermost first. -/
def eval (session : Session) (logic : Json) (scope : Scope) :
    Except EvaluationError Value × Session :=
  let trace := { session.trace with nextRoot := session.trace.nextRoot + scope.length }
  let (outcome, trace) :=
    (Evaluation.eval session.payload logic (place session.trace.nextRoot scope)).run trace
  (outcome, { session with trace })

end Session

end Criteria
