/-!
# Command lines

A command line names a group of commands and a command of the group, with options and arguments.
Options start with a hyphen and take a value: the next word, or what follows `=` in the same word.
They may stand among the arguments of a command; before a group or a command only its own count. The
word `--` ends the options; of a repeated option the last value counts.

`CommandLine.ofArgs` reads the words up to the group and `CommandLine.command` the rest, so that
what concerns the program as a whole can be settled between the two.
-/

namespace Criteria

/-- Why words are not a command line. -/
inductive UsageError
  | unknownOption (name : String)
  | missingValue (option : String)
  | badLevel (value : String)
  | missingCommand
  | unknownCommand (name : String)
  | missingArgument (name : String)
  | extraArgument (value : String)
  | noSuchFile (name : String)
  deriving DecidableEq, Repr

/-- The wording of a fault. -/
def UsageError.message : UsageError → String
  | .unknownOption name => s!"there is no option {name}"
  | .missingValue option => s!"the option {option} takes a value"
  | .badLevel value => s!"{value} is not a log level"
  | .missingCommand => "there is no command"
  | .unknownCommand name => s!"there is no command {name}"
  | .missingArgument name => s!"the argument {name} is missing"
  | .extraArgument value => s!"there is no place for the argument {value}"
  | .noSuchFile name => s!"there is no file {name}"

/-- A group of commands. -/
inductive CommandGroup
  | condition | catalog
  deriving DecidableEq, Repr

/-- A command with its operands. -/
inductive Command
  /-- Read a condition. -/
  | parse (text : String) (catalogFile : Option String)
  /-- Write JSON-Logic as text. -/
  | render (logic : String) (catalogFile : Option String)
  /-- Evaluate JSON-Logic on a payload. -/
  | evaluate (logic : String) (payloadFile payloadText : Option String)
  /-- List the variables of a catalog. -/
  | list (catalogFile : Option String)
  deriving DecidableEq, Repr

/-- The words of a command line up to the group, and the rest. -/
structure CommandLine where
  logLevel : Option String
  group : CommandGroup
  rest : List String
  deriving DecidableEq, Repr

/-- Options with their values, and the words that are no options. -/
structure Words where
  options : List (String × String)
  arguments : List String
  deriving DecidableEq, Repr

namespace Words

/-- The value of an option; the last one counts. -/
def option? (words : Words) (name : String) : Option String :=
  words.options.reverse.lookup name

/-- The words with one more option in front. -/
def consOption (name value : String) (words : Words) : Words :=
  { words with options := (name, value) :: words.options }

/-- The words with one more argument in front. -/
def consArgument (value : String) (words : Words) : Words :=
  { words with arguments := value :: words.arguments }

/-- The word is an option: a hyphen and more. -/
def isOption (word : String) : Bool :=
  match word.toList with
  | '-' :: _ :: _ => true
  | _ => false

/-- The name and the value in a word that holds both. -/
def splitValue? (word : String) : Option (String × String) :=
  match word.toList.dropWhile (· ≠ '=') with
  | [] => none
  | _ :: value => some (String.ofList (word.toList.takeWhile (· ≠ '=')), String.ofList value)

/-- Sorts words into the options of the given names and arguments. Unless options may stand among
arguments, all words from the first argument on are arguments. -/
def read (names : List String) (among : Bool) : List String → Except UsageError Words
  | [] => .ok ⟨[], []⟩
  | word :: rest =>
    if word = "--" then .ok ⟨[], rest⟩
    else if !isOption word then
      if among then (read names among rest).map (consArgument word) else .ok ⟨[], word :: rest⟩
    else match splitValue? word with
      | some (name, value) =>
        if names.contains name then (read names among rest).map (consOption name value)
        else .error (.unknownOption name)
      | none =>
        if !names.contains word then .error (.unknownOption word)
        else match rest with
          | value :: rest => (read names among rest).map (consOption word value)
          | [] => .error (.missingValue word)

end Words

namespace CommandLine

/-- The levels that may be asked for. -/
def levelNames : List String := ["DEBUG", "INFO", "WARNING", "ERROR"]

/-- The level that a word asks for, in small letters or capitals. -/
def readLevel (word : String) : Except UsageError String :=
  if levelNames.contains word.toUpper then .ok word.toUpper else .error (.badLevel word)

/-- Reads the words up to the group. -/
def ofArgs (args : List String) : Except UsageError CommandLine := do
  let words ← Words.read ["--log-level"] false args
  let logLevel ← (words.option? "--log-level").mapM readLevel
  match words.arguments with
  | [] => throw .missingCommand
  | "condition" :: rest => return ⟨logLevel, .condition, rest⟩
  | "catalog" :: rest => return ⟨logLevel, .catalog, rest⟩
  | name :: _ => throw (.unknownCommand name)

/-- The one argument that some words hold. -/
def onlyArgument (name : String) : List String → Except UsageError String
  | [] => .error (.missingArgument name)
  | [value] => .ok value
  | _ :: extra :: _ => .error (.extraArgument extra)

/-- No argument is among the words. -/
def noArgument : List String → Except UsageError Unit
  | [] => .ok ()
  | extra :: _ => .error (.extraArgument extra)

/-- Reads the words from the group on. -/
def command (line : CommandLine) : Except UsageError Command := do
  let words ← Words.read [] false line.rest
  match line.group, words.arguments with
  | _, [] => throw .missingCommand
  | .condition, "parse" :: rest => do
    let words ← Words.read ["--catalog"] true rest
    return .parse (← onlyArgument "EXPRESSION" words.arguments) (words.option? "--catalog")
  | .condition, "render" :: rest => do
    let words ← Words.read ["--catalog"] true rest
    return .render (← onlyArgument "JSON" words.arguments) (words.option? "--catalog")
  | .condition, "evaluate" :: rest => do
    let words ← Words.read ["--payload", "--payload-json"] true rest
    return .evaluate (← onlyArgument "JSON" words.arguments) (words.option? "--payload")
      (words.option? "--payload-json")
  | .catalog, "list" :: rest => do
    let words ← Words.read ["--catalog"] true rest
    noArgument words.arguments
    return .list (words.option? "--catalog")
  | _, name :: _ => throw (.unknownCommand name)

end CommandLine

namespace Command

/-- The file that a command names. -/
def file? : Command → Option String
  | .parse _ file => file
  | .render _ file => file
  | .evaluate _ file _ => file
  | .list file => file

end Command

end Criteria
