import Criteria.Condition
import Criteria.Settings

/-!
# Submissions

Clients submit a condition as text or as JSON-Logic; text that is not blank counts before
JSON-Logic. `Submission.normalize` answers with the form in which the condition is kept. Text is
checked against a catalog; JSON-Logic passes unchecked.
-/

namespace Criteria

/-- A condition as it is submitted. -/
structure Submission where
  text : Option String
  /-- The JSON-Logic, or `null`. -/
  logic : Json

/-- A condition as it is kept. -/
structure Artifact where
  logic : Json
  /-- The canonical text, when text was submitted. -/
  canonical : Option String
  warnings : List WarningCode
  /-- The paths of the variables that the condition refers to. -/
  dependencies : List String

/-- Why a submission is not a condition. -/
inductive SubmissionError
  /-- The settings cannot be read. -/
  | settings (error : SettingsError)
  /-- The catalog that is set cannot be read. -/
  | catalog (error : CatalogFileError)
  /-- The text is not a condition. -/
  | invalid (diagnostics : List Diagnostic)

/-- What a client is told when neither text nor JSON-Logic was submitted. -/
def nothingSubmitted : Diagnostic :=
  .spanning .emptyExpression "Either `dsl` or `jsonLogic` must be provided." (.ofText "") 0 0

/-- The wording of a failure. -/
def SubmissionError.message : SubmissionError → String
  | .settings error => error.message
  | .catalog error => error.message
  | .invalid _ => "Invalid condition expression."

/-- Invalid diagnostics as data. -/
def SubmissionError.detail (diagnostics : List Diagnostic) : Json :=
  .object [
    ("code", .string "invalid_condition_dsl"),
    ("message", .string (SubmissionError.invalid diagnostics).message),
    ("errors", .array (diagnostics.map Diagnostic.toJson))]

namespace Artifact

/-- The form in which a condition that was read from text is kept. -/
def ofCondition (c : Condition) : Artifact where
  logic := c.logic
  canonical := some c.canonical
  warnings := c.warnings
  dependencies := c.dependencies.map (·.path)

/-- JSON-Logic as it is kept. -/
def ofLogic (logic : Json) : Artifact := ⟨logic, none, [], []⟩

/-- A kept condition as data. -/
def toJson (artifact : Artifact) : Json :=
  .object [
    ("jsonLogic", artifact.logic),
    ("canonicalDsl", Json.optionalText artifact.canonical),
    ("warnings", .array (artifact.warnings.map WarningCode.toJson)),
    ("variables", .array (artifact.dependencies.map .string))]

end Artifact

namespace Submission

/-- The submission that some fields are: the text is a string, `null` or absent; the JSON-Logic is
found under either spelling, and the first counts when both occur. -/
def ofFields? (data : Json) : Option Submission := do
  let text ← match data.get? "dsl" with
    | none => some none
    | some .null => some none
    | some (.string text) => some (some text)
    | some _ => none
  return ⟨text, ((data.get? "jsonLogic").or (data.get? "json_logic")).getD .null⟩

/-- The catalog and the nesting limit for a text: those given, and those that are set in place of
those not given. The settings are read only where something is not given. -/
def surroundings (catalog : Option Catalog) (limit : Option Int) (env : Environment)
    (files : Files) : Except SubmissionError (Catalog × Int) :=
  match catalog, limit with
  | some catalog, some limit => .ok (catalog, limit)
  | _, _ => do
    let settings ← (Settings.ofEnvironment env).mapError .settings
    let catalog ← match catalog with
      | some catalog => pure catalog
      | none => ((settings.catalog files).mapError .catalog).map (·.1)
    return (catalog, limit.getD settings.maxDepth)

/-- The form in which a submitted condition is kept. -/
def normalize (submission : Submission) (catalog : Option Catalog) (limit : Option Int)
    (env : Environment) (files : Files) : Except SubmissionError Artifact := do
  let text := Text.strip (submission.text.getD "")
  if text ≠ "" then
    let (catalog, limit) ← surroundings catalog limit env files
    match Condition.parse text catalog limit with
    | .ok c => return .ofCondition c
    | .error error => throw (.invalid (error.diagnostics text))
  else match submission.logic with
    | .null => throw (.invalid [nothingSubmitted])
    | logic => return .ofLogic logic

end Submission

end Criteria
