import Criteria.Command.Run

/-!
# The command line program
-/

namespace Criteria

/-- The environment variables that settings are read from. -/
def variableNames : List String :=
  ["CONDITIONFORGE_CATALOG_PATH", "CONDITIONFORGE_MAX_DEPTH", "CONDITIONFORGE_LOG_LEVEL"]

/-- The text of a file, when it can be read. -/
def readFile? (name : String) : IO (Option String) := do
  try
    return some (← IO.FS.readFile name)
  catch _ =>
    return none

end Criteria

open Criteria

/-- Answers the command line. -/
def main (args : List String) : IO UInt32 := do
  let values ← variableNames.mapM fun name => do return (name, ← IO.getEnv name)
  let env : Environment := fun name => (values.lookup name).join
  let texts ← (CommandLine.fileNames args env).mapM fun name => do
    return (name, ← readFile? name)
  let files : Files := fun name => (texts.lookup name).join
  match CommandLine.run args env files with
  | (.ok outcome, level) =>
    IO.print outcome.output
    IO.eprint (outcome.messageText level)
    return outcome.exitCode.toUInt32
  | (.error fault, _) =>
    IO.eprintln fault.message
    return 1
