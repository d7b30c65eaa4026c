import Criteria.Command.Line
import Criteria.Json.Printer
import Criteria.Json.Reader
import Criteria.Log
import Criteria.Settings
import Criteria.Text.Style

/-!
# Running a command line

`CommandLine.run` answers a command line with what is printed and with the exit code: zero when the
command's answer is positive, one when it is not or cannot be given, two when the words are not a
command line. A value that cannot be had ends the program without an answer. Environment and files
are functions, so the answer is one too. Nothing but notes in the log is printed with style
sequences in it.
-/

namespace Criteria

/-- A line beside the output. -/
inductive Message
  /-- A note in the log. -/
  | logged (entry : Log.Entry)
  /-- What keeps the program from answering. -/
  | fault (text : String)
  deriving DecidableEq, Repr

/-- What running a command line gives. -/
structure Outcome where
  exitCode : Nat
  output : String
  messages : List Message
  deriving DecidableEq, Repr

/-- The message as it is shown under a level of the log. -/
def Message.shownAt? (level : String) : Message → Option String
  | .logged entry => if entry.shownAt level then some entry.text else none
  | .fault text => some ("Error: " ++ Text.plain text)

namespace Outcome

/-- No answer is given. -/
def failure (fault : String) : Outcome := ⟨1, "", [.fault fault]⟩

/-- The words are not a command line. -/
def misuse (error : UsageError) : Outcome := ⟨2, "", [.fault error.message]⟩

/-- An answer as data, positive or not. -/
def ofJson (positive : Bool) (answer : Json) : Outcome :=
  ⟨if positive then 0 else 1, answer.pretty ++ "\n", []⟩

/-- The outcome with notes that were made before it. -/
def after (outcome : Outcome) (entries : List Log.Entry) : Outcome :=
  { outcome with messages := entries.map .logged ++ outcome.messages }

/-- The messages as they are shown under a level of the log. -/
def messageText (outcome : Outcome) (level : String) : String :=
  String.join ((outcome.messages.filterMap (Message.shownAt? level)).map (· ++ "\n"))

end Outcome

/-! ## Answers -/

/-- A negative answer with the reasons. -/
def refusalJson (diagnostics : List Diagnostic) : Json :=
  .object [("ok", .bool false), ("errors", .array (diagnostics.map Diagnostic.toJson))]

/-- The answer to reading a condition. -/
def parseOutcome (text : String) (catalog : Catalog) (limit : Int) : Outcome :=
  let result := Condition.parse text catalog limit
  (match result with
    | .ok c => Outcome.ofJson true c.toJson
    | .error error => .ofJson false (refusalJson (error.diagnostics text))).after (Log.ofParse result)

/-- The answer to writing JSON-Logic as text. -/
def renderOutcome (logic : Json) (catalog : Catalog) : Outcome :=
  let result := Condition.write logic catalog
  (match result with
    | .ok text => Outcome.ofJson true (.object [("ok", .bool true), ("expression", .string text)])
    | .error error => .ofJson false (refusalJson error.diagnostics)).after (Log.ofWrite result)

/-- A verdict as data. -/
def Verdict.toJson (verdict : Verdict) : Json :=
  .object [
    ("ok", .bool true),
    ("result", .bool verdict.holds),
    ("resolvedVariables", .object (verdict.reads.map fun (path, value) => (path, value.toJson)))]

/-- The answer to evaluating a condition. -/
def evaluateOutcome (logic payload : Json) : Outcome :=
  let result := evaluate logic payload
  (match result with
    | .ok verdict => Outcome.ofJson true verdict.toJson
    | .error failure =>
      .ofJson false (.object [("ok", .bool false), ("error", .string failure.message)])).after
    (Log.ofEvaluation result)

/-- A text padded with blanks at its end to a width. -/
def padEnd (width : Nat) (s : String) : String :=
  s ++ String.ofList (List.replicate (width - s.length) ' ')

/-- The variables of a catalog, one a line, with their types and comparisons. -/
def listOutcome (catalog : Catalog) : Outcome :=
  match catalog.definitions with
  | [] => ⟨0, "No variables in catalog.\n", []⟩
  | definitions =>
    let width := (definitions.map (·.path.length)).foldl max 0
    let line (d : Definition) : String :=
      let comparisons := " ".intercalate (d.comparisons.map Comparison.symbol)
      s!"  {padEnd width d.path}  {padEnd 8 d.type.name}  {comparisons}\n"
    let lines := String.join (definitions.map fun d => Text.plain (line d))
    ⟨0, lines ++ s!"\n{definitions.length} variable(s).\n", []⟩

/-! ## Commands -/

/-- What running gives, unless a value cannot be had. -/
abbrev Run := Except ValueFault Outcome

/-- Goes on with the catalog of a named file, or with the one that is set. -/
def withCatalog (settings : Settings) (files : Files) (file : Option String)
    (next : Catalog → Run) : Run :=
  let file := (file.map FileName.normalize).or settings.catalogFile
  let result := { settings with catalogFile := file }.catalog files
  let entries := match file with
    | some file => Log.ofCatalog file result
    | none => []
  match result with
  | .ok (catalog, _) => (next catalog).map (·.after entries)
  | .error error =>
    match error.valueFault? with
    | some fault => .error fault
    | none => .ok ((Outcome.failure error.message).after entries)

/-- Goes on with the value that a text holds; the text is named for what it is. -/
def withJson (name text : String) (next : Json → Run) : Run :=
  match Json.read text with
  | .ok value => next value
  | .error error =>
    match error.fault with
    | .digits count => .error (.manyDigits count)
    | _ => .ok (.failure s!"{name} is not valid JSON: {error.message text}")

/-- Goes on with the payload of an evaluation: of a file, of a text, or else an empty object. -/
def withPayload (files : Files) (file text : Option String) (next : Json → Run) : Run :=
  match file, text with
  | some file, _ =>
    let content := (files (FileName.normalize file)).getD ""
    withJson "Payload file" (String.ofList (Text.unifyBreaks content.toList)) next
  | none, some text => withJson "Payload" text next
  | none, none => next (.object [])

/-- The outcome of a command. -/
def Command.run (settings : Settings) (files : Files) : Command → Run
  | .parse text file =>
    withCatalog settings files file fun catalog =>
      .ok (parseOutcome text catalog settings.maxDepth)
  | .render logic file =>
    withCatalog settings files file fun catalog =>
      withJson "JSON-Logic" logic fun logic => .ok (renderOutcome logic catalog)
  | .evaluate _ (some _) (some _) =>
    .ok (.failure "use either --payload or --payload-json, not both.")
  | .evaluate logic file text =>
    withJson "JSON-Logic" logic fun logic =>
      withPayload files file text fun payload => .ok (evaluateOutcome logic payload)
  | .list file => withCatalog settings files file fun catalog => .ok (listOutcome catalog)

namespace CommandLine

/-- The command, when the file it names exists. -/
def existing (line : CommandLine) (files : Files) : Except UsageError Command := do
  let command ← line.command
  match command.file? with
  | some file => if (files file).isSome then return command else throw (.noSuchFile file)
  | none => return command

/-- The settings for a command line: its own log level counts before that of the environment. -/
def settings (line : CommandLine) (env : Environment) : Except SettingsError Settings := do
  let settings ← Settings.ofEnvironment env
  return { settings with logLevel := line.logLevel.getD settings.logLevel }

/-- What running a command line under its settings gives. -/
def runUnder (line : CommandLine) (settings : Settings) (files : Files) : Run :=
  match Log.levelFault? settings.logLevel with
  | some fault => .error fault
  | none =>
    match line.existing files with
    | .error error => .ok (.misuse error)
    | .ok command => command.run settings files

/-- What running some words gives, and the level of the log. Whether there is such a group is settled
first, then the settings, then the command. -/
def run (args : List String) (env : Environment) (files : Files) : Run × String :=
  match ofArgs args with
  | .error error => (.ok (.misuse error), "")
  | .ok line =>
    match line.settings env with
    | .error error => (.ok (.failure error.message), "")
    | .ok settings => (line.runUnder settings files, settings.logLevel)

/-- The names of the files that an answer to some words may need. -/
def fileNames (args : List String) (env : Environment) : List String :=
  match ofArgs args with
  | .error _ => []
  | .ok line =>
    let own := match line.command with
      | .ok command => command.file?
      | .error _ => none
    let set := match line.settings env with
      | .ok settings => settings.catalogFile
      | .error _ => none
    own.toList ++ (own.map FileName.normalize).toList ++ set.toList

end CommandLine

end Criteria
