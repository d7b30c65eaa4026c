import Criteria.Catalog.File
import Criteria.Expr.Parser
import Criteria.Folder
import Criteria.Number.Integer
import Criteria.Text.UpperCase

/-!
# Settings

What the environment sets: the catalog file, the nesting limit of condition texts and the level of
the log. A variable that is not set, or set to nothing, leaves its default.
-/

namespace Criteria

/-- What a condition is read with. -/
structure Settings where
  /-- The file of the catalog; without one the catalog is empty. -/
  catalogFile : Option String
  /-- How deep groups, quantifiers and negations may be nested. -/
  maxDepth : Int
  /-- The name of the log's level, in capitals. -/
  logLevel : String
  deriving DecidableEq, Repr

/-- Why the environment does not give settings. -/
inductive SettingsError
  /-- The nesting limit is not an integer. -/
  | notInteger (text : String)
  /-- The nesting limit is not positive. -/
  | notPositive (value : Int)
  deriving DecidableEq, Repr

/-- The wording of a failure. -/
def SettingsError.message : SettingsError → String
  | .notInteger text => s!"CONDITIONFORGE_MAX_DEPTH must be an integer, got '{text}'"
  | .notPositive value => s!"CONDITIONFORGE_MAX_DEPTH must be positive, got {value}"

/-- The values of environment variables. -/
abbrev Environment := String → Option String

namespace Settings

/-- A variable that is set to something. -/
def given? (env : Environment) (name : String) : Option String :=
  (env name).filter (· ≠ "")

/-- The nesting limit that a text sets. -/
def readDepth (text : String) : Except SettingsError Int :=
  match readInt? text with
  | none => .error (.notInteger text)
  | some value => if value < 1 then .error (.notPositive value) else .ok value

/-- The settings that an environment gives. -/
def ofEnvironment (env : Environment) : Except SettingsError Settings := do
  let maxDepth ← match given? env "CONDITIONFORGE_MAX_DEPTH" with
    | some text => readDepth text
    | none => pure defaultMaxDepth
  return {
    catalogFile := (given? env "CONDITIONFORGE_CATALOG_PATH").map FileName.normalize
    maxDepth
    logLevel := Text.upper ((given? env "CONDITIONFORGE_LOG_LEVEL").getD "WARNING") }

/-- The catalog that is set, and the paths of the definitions left out. -/
def catalog (settings : Settings) (files : Files) :
    Except CatalogFileError (Catalog × List String) :=
  match settings.catalogFile with
  | some file => Catalog.ofFile file (files file)
  | none => .ok (Catalog.empty, [])

/-- A nesting limit from the environment is positive. -/
theorem one_le_of_readDepth {text : String} {value : Int} (h : readDepth text = .ok value) :
    1 ≤ value := by
  unfold readDepth at h
  split at h
  · cases h
  · split at h
    · cases h
    · cases h; omega

end Settings

end Criteria
