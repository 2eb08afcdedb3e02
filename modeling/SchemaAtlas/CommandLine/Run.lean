import SchemaAtlas.CommandLine.Filter
import SchemaAtlas.CommandLine.Request
import SchemaAtlas.Configuration.Loading
import SchemaAtlas.Configuration.Template
import SchemaAtlas.Json
import SchemaAtlas.Store.Lookup
import SchemaAtlas.Workbook.Export

/-!
# Running the program

A run takes the words of a command line and a file system, and ends with what is printed and an exit
code: zero if all went well, one if a job failed, two if the command line was wrong. Some faults are
not expected of a job; they interrupt the run, which then has no exit code.

How the words are told apart, how a text is read as data and how a text is put into a cell are
arguments of a run, as the files are. What a run does with a request, with data and with a refused
text is the same whichever they are.
-/
namespace SchemaAtlas.CommandLine

open Yaml (YamlError)

/-- A fault that no command expects. -/
inductive Interruption
  | file (error : FileError)
  | value (error : YamlError)
  | cell (error : CellError)
  /-- Data that contains itself where only finite data has a meaning. -/
  | endless
  deriving DecidableEq

def Interruption.message : Interruption → String
  | file error => error.message
  | value error => error.message
  | cell error => error.message
  | endless => "The data contains itself."

/-- How a job fails. -/
inductive Failure
  | explained (message : String)
  | interrupted (cause : Interruption)
  deriving DecidableEq

namespace Failure

def ofFault (f : Fault) : Failure :=
  if f.isEndless then interrupted .endless else explained f.message

def ofLoadError : LoadError → Failure
  | .configuration (.declaration e) => ofFault (.declaration e)
  | .configuration e => explained e.message
  | .file e => interrupted (.file e)
  | .value e => interrupted (.value e)

/-- A file that cannot be written is an expected failure, unless its name is impossible. -/
def ofFileError (e : FileError) : Failure :=
  if e.isReportedBySystem then explained e.message else interrupted (.file e)

def ofExportError : ExportError → Failure
  | .cell e => interrupted (.cell e)
  | .file e => ofFileError e

def ofTemplateError : Configuration.TemplateError → Failure
  | .alreadyExists path => explained (Configuration.TemplateError.alreadyExists path).message
  | .file e => ofFileError e

def ofFilterError : FilterError → Failure
  | .value e => interrupted (.value e)
  | .query e => ofFault (.query e)
  | e => explained e.message

end Failure

/-- What a run leaves behind. -/
structure Output where
  result : Except Interruption Nat
  stdout : String
  stderr : String

/-- A job that needs no files any more: it reports, and gives a union or fails. -/
abbrev Inspection := ExceptT Failure (StateM (List LogEntry))

/-- Runs an operation that needs no client. -/
def inspect (action : Action Empty α) : Inspection α := fun entries =>
  let (result, journal) := action ⟨[], entries⟩
  (result.mapError .ofFault, journal.entries)

/-- A union as it is printed. -/
def report (u : SchemaUnion) : Json :=
  .object
    [("generic", .boolean u.isGeneric),
     ("variants", .array (u.ordered.map fun v =>
       .object
         [("origins", .array (v.origins.map .text)),
          ("fields", .object (v.schema.rendered.map fun field => (field.1, .text field.2)))]))]

def resolveJob (t : SchemaTree) (isLiteral : Bool) (path : String) : Inspection SchemaUnion := do
  let path ← inspect (Action.parsePath (!isLiteral) (.text path))
  inspect (Action.unionAt t path)

def groupJob (t : SchemaTree) (depth : Int) (name : String) : Inspection SchemaUnion :=
  inspect (Action.collectionGroup t (.text name) depth)

/-- Fields are selected only if some are named. -/
def narrowJob (t : SchemaTree) (read : Yaml.Parser) (clauses selected : List String)
    (path : String) : Inspection SchemaUnion := do
  let predicates ← clauses.mapM fun clause =>
    ExceptT.mk (pure ((predicateOf clause read).mapError .ofFilterError))
  let path ← inspect (Action.parsePath true (.text path))
  let u ← inspect (Action.unionAt t path)
  let u ← inspect (Action.narrowAll u predicates)
  return if selected.isEmpty then u else u.select (selected.map Value.text)

/-- What a job leaves behind: its diagnostics, and the text that it prints. -/
structure Performance where
  entries : List LogEntry
  result : Except Failure String

def Performance.failed (f : Failure) : Performance := ⟨[], .error f⟩

def Performance.ofInspection (i : Inspection SchemaUnion) : Performance :=
  let (result, entries) := i []
  ⟨entries, result.map fun u => (report u).render⟩

variable {m : Type → Type} [Monad m]

/-- Loads a configuration and its tree, and goes on with both. -/
def withTree (fs : FileSystem m) (read : Yaml.Parser) (config : String)
    (go : Configuration → SchemaTree → m Performance) : m Performance := do
  match ← (Configuration.load fs (.ofText config) read).run with
  | .error e => return .failed (.ofLoadError e)
  | .ok c =>
    match c.tree read with
    | .error e => return .failed (.ofLoadError e)
    | .ok t => go c t

/-- The performance of a job that writes a file and prints its path. -/
def written (result : Except ε FilePath) (failure : ε → Failure) : Performance :=
  ⟨[], (result.map (·.text)).mapError failure⟩

def Job.perform (fs : FileSystem m) (read : Yaml.Parser) (fill : Cell.Filler) : Job → m Performance
  | .resolve config isLiteral path =>
    withTree fs read config fun _ t => return .ofInspection (resolveJob t isLiteral path)
  | .collectionGroup config name =>
    withTree fs read config fun c t => return .ofInspection (groupJob t c.depth name)
  | .narrow config clauses selected path =>
    withTree fs read config fun _ t =>
      return .ofInspection (narrowJob t read clauses selected path)
  | .exportInventory config output =>
    withTree fs read config fun _ t =>
      return written (← (t.writeInventory fs (.ofText output) fill).run) .ofExportError
  | .generateConfig output =>
    return written (← (Configuration.writeTemplate fs (.ofText output)).run) .ofTemplateError

/-- The output of a job, with the diagnostics that are not below a level. -/
def Performance.output (level : LogLevel) (p : Performance) : Output :=
  let lines := String.join ((LogEntry.atLeast level p.entries).map (·.line ++ "\n"))
  match p.result with
  | .ok text => ⟨.ok 0, text ++ "\n", lines⟩
  | .error (.explained message) => ⟨.ok 1, "", lines ++ message ++ "\n"⟩
  | .error (.interrupted cause) => ⟨.error cause, "", lines⟩

/-- Does what a command line asks for. -/
def Request.answer (fs : FileSystem m) (read : Yaml.Parser) (fill : Cell.Filler) :
    Request → m Output
  | .inform text => return ⟨.ok 0, text ++ "\n", ""⟩
  | .refuse text => return ⟨.ok 2, "", text ++ "\n"⟩
  | .interrupt error => return ⟨.error (.file error), "", ""⟩
  | .perform level job => return (← job.perform fs read fill).output level

/-- Runs the program on the words of a command line. Files may be asked for to tell them apart. -/
def run (fs : FileSystem m) (words : List String)
    (parse : List String → m Request := fun words => return Request.ofWords words)
    (read : Yaml.Parser := Yaml.read) (fill : Cell.Filler := Cell.ofText) : m Output := do
  (← parse words).answer fs read fill

end SchemaAtlas.CommandLine
