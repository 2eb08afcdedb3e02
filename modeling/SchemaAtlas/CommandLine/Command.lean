import SchemaAtlas.CommandLine.Option

/-!
# Commands

The commands of the program: their options and arguments, and the texts that explain them.
-/
namespace SchemaAtlas.CommandLine

def programName : String := "docstore-schema"

def version : String := "0.1.0"

inductive Command
  | collectionGroup | exportInventory | generateConfig | narrow | resolve
  deriving DecidableEq

def helpForm : OptionForm := ⟨"--help", some 'h', false⟩

def valueForm (name : String) : OptionForm := ⟨name, none, true⟩

/-- The options before a command. -/
def programForms : List OptionForm :=
  [⟨"--version", none, false⟩, valueForm "--log-level", helpForm]

namespace Command

def all : List Command := [collectionGroup, exportInventory, generateConfig, narrow, resolve]

def name : Command → String
  | collectionGroup => "collection-group"
  | exportInventory => "export-inventory"
  | generateConfig => "generate-config"
  | narrow => "narrow"
  | resolve => "resolve"

def ofName? (name : String) : Option Command := all.find? (·.name = name)

def forms : Command → List OptionForm
  | collectionGroup => [valueForm "--config", helpForm]
  | exportInventory => [valueForm "--config", valueForm "--output", helpForm]
  | generateConfig => [valueForm "--output", helpForm]
  | narrow => [valueForm "--config", valueForm "--where", valueForm "--select", helpForm]
  | resolve => [valueForm "--config", ⟨"--literal", none, false⟩, helpForm]

/-- The options that have to be given. -/
def required : Command → List String
  | exportInventory => ["--config", "--output"]
  | generateConfig => []
  | _ => ["--config"]

/-- The options that name a file. -/
def fileOptions : List String := ["--config", "--output"]

/-- The name of the argument, if the command has one. -/
def argument? : Command → Option String
  | collectionGroup => some "NAME"
  | narrow | resolve => some "PATH"
  | exportInventory | generateConfig => none

end Command

/-- The usage of a command, or of the program. -/
def usageLine : Option Command → String
  | none => "Usage: " ++ programName ++ " [OPTIONS] COMMAND [ARGS]..."
  | some c =>
    "Usage: " ++ programName ++ " " ++ c.name ++ " [OPTIONS]" ++
      (c.argument?.map (" " ++ ·)).getD ""

/-- What a command, or the program, is for. -/
def purpose : Option Command → String
  | none => "Resolve paths and narrow queries against a declared document-store schema."
  | some .collectionGroup =>
    "Print the schemas of every collection called NAME, at any depth, as JSON."
  | some .exportInventory => "Write an Excel inventory of every declared collection and field."
  | some .generateConfig => "Generate a placeholder YAML configuration with guidance comments."
  | some .narrow => "Print the schemas at PATH that could satisfy the given filters as JSON."
  | some .resolve => "Print the schemas declared at a collection or document PATH as JSON."

def configLine : String :=
  "  --config PATH  Path to the YAML configuration file  [required]"

def helpLine : String := "  -h, --help     Show this message and exit."

/-- The lines that explain the options. -/
def optionLines : Option Command → List String
  | none =>
    ["  --version                       Show the version and exit.",
     "  --log-level [debug|info|warning|error]",
     "                                  Verbosity of diagnostics written to stderr",
     "                                  [default: WARNING]",
     "  -h, --help                      Show this message and exit."]
  | some .collectionGroup => [configLine, helpLine]
  | some .exportInventory =>
    [configLine, "  --output PATH  Path to the inventory workbook to write  [required]", helpLine]
  | some .generateConfig =>
    ["  --output PATH  Path to the YAML configuration template to write  [default:",
     "                 config.yaml]",
     helpLine]
  | some .narrow =>
    [configLine,
     "  --where TEXT   Filter as 'field operator value'; the value is read as YAML.",
     "                 Repeatable.",
     "  --select TEXT  Top-level field to keep in the result. Repeatable.",
     helpLine]
  | some .resolve =>
    [configLine,
     "  --literal      Treat segments wrapped in braces as literal names instead of",
     "                 wildcards.",
     helpLine]

/-- The lines that list the commands. -/
def commandLines : List String :=
  ["",
   "Commands:",
   "  collection-group  Print the schemas of every collection called NAME, at...",
   "  export-inventory  Write an Excel inventory of every declared collection...",
   "  generate-config   Generate a placeholder YAML configuration with...",
   "  narrow            Print the schemas at PATH that could satisfy the...",
   "  resolve           Print the schemas declared at a collection or..."]

/-- The help of a command, or of the program. -/
def helpText (c : Option Command) : String :=
  Text.joinWith "\n"
    ([usageLine c, "", "  " ++ purpose c, "", "Options:"] ++ optionLines c ++
      if c.isNone then commandLines else [])

def versionText : String := programName ++ ", version " ++ version

/-- The account of a usage error. -/
def usageText (c : Option Command) (error : UsageError) : String :=
  let line := "Error: " ++ error.message
  if error.isBrief then line
  else
    let command := programName ++ (c.map (" " ++ ·.name)).getD ""
    usageLine c ++ "\nTry '" ++ command ++ " -h' for help.\n\n" ++ line

end SchemaAtlas.CommandLine
