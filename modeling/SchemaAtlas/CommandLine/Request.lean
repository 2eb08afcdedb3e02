import SchemaAtlas.CommandLine.Command
import SchemaAtlas.Configuration.Template
import SchemaAtlas.Diagnostics

/-!
# Requests

What a command line asks for: a text to be shown, or a job to be done. Everything that is wrong with
the command line itself is found here, before any job is begun.

This is one way to tell the words apart. A run takes it as an argument, and what is known of all runs
does not rest on it.
-/
namespace SchemaAtlas.CommandLine

/-- What a command does, with its options and its argument. -/
inductive Job
  | collectionGroup (config name : String)
  | exportInventory (config output : String)
  | generateConfig (output : String)
  | narrow (config : String) (clauses selected : List String) (path : String)
  | resolve (config : String) (isLiteral : Bool) (path : String)
  deriving DecidableEq

inductive Request
  /-- A text that was asked for. -/
  | inform (text : String)
  /-- What is wrong with the command line, or the help where nothing was asked for. -/
  | refuse (text : String)
  /-- The name of a file cannot be looked up. -/
  | interrupt (error : FileError)
  | perform (level : LogLevel) (job : Job)
  deriving DecidableEq

/-- The level with a name in letters of either case. -/
def levelOfName? (name : String) : Option LogLevel :=
  LogLevel.all.find? fun level => level.name.toList = name.toList.map Char.toUpper

namespace Request

def reject (c : Option Command) (error : UsageError) : Request := refuse (usageText c error)

/-- The text that the first of the options asks for that asks for one. -/
def informing? (c : Option Command) (w : Words) : Option Request :=
  w.options.findSome? fun option =>
    if option.1 = "--help" then some (.inform (helpText c))
    else if option.1 = "--version" then some (.inform versionText)
    else none

/-- The level of diagnostics, and the words behind the options of the program. -/
def ofProgramWords (words : List String) : Except Request (LogLevel × List String) := do
  let w ← (readWords programForms false words).mapError (.reject none)
  if let some request := informing? none w then throw request
  match w.value? "--log-level" with
  | none => return (.warning, w.arguments)
  | some name =>
    match levelOfName? name with
    | some level => return (level, w.arguments)
    | none => throw (.reject none (.invalidLevel name))

/-- What is wrong with the name of a file. -/
def fileProblem? (w : Words) (name : String) : Option Request :=
  if Command.fileOptions.contains name && ((w.value? name).getD "").toList.contains '\x00' then
    some (.interrupt (.nullCharacter "stat"))
  else none

/--
The first problem with the words of a command: the given options are looked at in their order, then
the argument, then the options that are missing.
-/
def problem? (c : Command) (w : Words) : Option Request :=
  (w.options.findSome? fun option => fileProblem? w option.1) <|>
    (match c.argument?, w.arguments with
      | some name, [] => some (.reject (some c) (.missingArgument name))
      | _, _ => none) <|>
    ((c.required.find? fun name => !w.has name).map fun name =>
      .reject (some c) (.missingOption name)) <|>
    (match w.arguments.drop (if c.argument?.isSome then 1 else 0) with
      | [] => none
      | extra => some (.reject (some c) (.extraArguments extra)))

/-- The job of a command whose words are complete. -/
def jobOf (c : Command) (w : Words) : Job :=
  let value (name : String) : String := (w.value? name).getD ""
  let argument := w.arguments.head?.getD ""
  match c with
  | .collectionGroup => .collectionGroup (value "--config") argument
  | .exportInventory => .exportInventory (value "--config") (value "--output")
  | .generateConfig => .generateConfig ((w.value? "--output").getD Configuration.defaultFileName)
  | .narrow =>
    .narrow (value "--config") (w.values "--where") (w.values "--select") argument
  | .resolve => .resolve (value "--config") (w.has "--literal") argument

/-- The request of a command with its words. -/
def ofCommandWords (c : Command) (level : LogLevel) (words : List String) : Request :=
  match readWords c.forms true words with
  | .error e => .reject (some c) e
  | .ok w =>
    ((informing? (some c) w).or (problem? c w)).getD (.perform level (jobOf c w))

/-- The request for a name that is no command. A word with a dash is taken for an option once more. -/
def ofUnknownCommand (name : String) (words : List String) : Request :=
  if name.toList.head? = some '-' then
    match ofProgramWords (name :: words) with
    | .error request => request
    | .ok _ => .reject none (.noSuchCommand name)
  else .reject none (.noSuchCommand name)

/-- The request of a whole command line. -/
def ofWords : List String → Request
  | [] => .refuse (helpText none)
  | words =>
    match ofProgramWords words with
    | .error request => request
    | .ok (_, []) => .reject none .missingCommand
    | .ok (level, name :: rest) =>
      match Command.ofName? name with
      | some c => ofCommandWords c level rest
      | none => ofUnknownCommand name rest

end Request
end SchemaAtlas.CommandLine
