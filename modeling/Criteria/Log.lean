import Criteria.Catalog.File
import Criteria.Condition
import Criteria.Evaluation.Evaluator

/-!
# The log

What the parts of the program note about their work, beside their results. An entry names its source
and is shown when it is at least as grave as the level of the log.
-/

namespace Criteria.Log

/-- How grave an entry is. -/
inductive Severity
  | debug | warning
  deriving DecidableEq, Repr

namespace Severity

/-- The name of a severity. -/
def name : Severity → String
  | .debug => "DEBUG"
  | .warning => "WARNING"

/-- The rank of a severity among the levels. -/
def rank : Severity → Nat
  | .debug => 10
  | .warning => 30

end Severity

/-- The ranks of the named levels. -/
def levels : List (String × Nat) :=
  [("NOTSET", 0), ("DEBUG", 10), ("INFO", 20), ("WARN", 30), ("WARNING", 30), ("ERROR", 40),
    ("FATAL", 50), ("CRITICAL", 50)]

/-- The one name that is refused as a level: it stands for the layout of entries. -/
def layoutName : String := "BASIC_FORMAT"

/-- The layout of entries, where no other is chosen. -/
def layout : String := "%(levelname)s:%(name)s:%(message)s"

/-- What is wrong with a name as a level. -/
def levelFault? (level : String) : Option ValueFault :=
  if level = layoutName then some (.noLevel layout) else none

/-- The rank of a level; an unknown name means warnings. -/
def rankOf (level : String) : Nat := (levels.lookup level).getD Severity.warning.rank

/-- A note in the log. -/
structure Entry where
  severity : Severity
  /-- The part of the program that notes something. -/
  source : String
  message : String
  deriving DecidableEq, Repr

namespace Entry

/-- The entry on one line. -/
def text (e : Entry) : String := s!"{e.severity.name} {e.source}: {e.message}"

/-- A log of the given level shows the entry. -/
def shownAt (e : Entry) (level : String) : Bool := rankOf level ≤ e.severity.rank

end Entry

/-! ## What is noted -/

/-- Reading a catalog file: the issues of a file that is refused, or the definitions left out and
the number of those kept. -/
def ofCatalog (file : String) (outcome : Except CatalogFileError (Catalog × List String)) :
    List Entry :=
  match outcome with
  | .ok (catalog, repeated) =>
    repeated.map (fun path =>
      ⟨.warning, "conditionforge.dsl.catalog", s!"Duplicate catalog path '{path}' ignored"⟩) ++
    [⟨.debug, "conditionforge.metadata.loader",
      s!"Loaded {catalog.definitions.length} catalog variable(s) from {file}"⟩]
  | .error error =>
    match error.fault with
    | .document (.misshapen issues) =>
      [⟨.debug, "conditionforge.metadata.validator",
        s!"{issues.length} schema issue(s) in {file}"⟩]
    | _ => []

/-- Checking a condition against a catalog. -/
def ofFindings (findings : List Located) : Entry :=
  ⟨.debug, "conditionforge.dsl.validator", s!"Validation produced {findings.length} error(s)"⟩

/-- Reading a condition. -/
def ofParse : Except ConditionError Condition → List Entry
  | .error (.unreadable error) =>
    [⟨.debug, "conditionforge.dsl.engine",
      s!"Syntax error at offset {error.offset}: {error.message}"⟩]
  | .error (.invalid findings) => [ofFindings findings]
  | _ => []

/-- Writing JSON-Logic as text. -/
def ofWrite : Except WritingError String → List Entry
  | .error .tooDeep =>
    [⟨.debug, "conditionforge.dsl.engine", "JSON-Logic payload exceeded the recursion limit"⟩]
  | .error (.invalid findings) => [ofFindings findings]
  | _ => []

/-- Evaluating a condition. -/
def ofEvaluation : Except ConditionFailure Verdict → List Entry
  | .error (.failed error) =>
    if error.isNumeric then
      [⟨.warning, "conditionforge.dsl.evaluator",
        s!"Unexpected error evaluating condition: {error.message}"⟩]
    else
      [⟨.debug, "conditionforge.dsl.evaluator",
        s!"Condition evaluation failed: {error.message}"⟩]
  | _ => []

end Criteria.Log
