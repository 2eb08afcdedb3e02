import SchemaAtlas.Files.System

/-!
# Configuration templates

A configuration to start from, with comments and with a placeholder for what has to be filled in. It
is never written over a file that is there.
-/
namespace SchemaAtlas.Configuration

def defaultFileName : String := "config.yaml"

def templateLines : List String :=
  ["# Configuration template for docstore-schema.",
   "# Replace every <REQUIRED> placeholder before running resolve, narrow or export-inventory.",
   "# Optional sections may be deleted; their defaults are shown.",
   "",
   "schema:",
   "  # Provide either an inline YAML declaration or a path to a declaration file.",
   "  # Relative paths are resolved against the directory of this file.",
   "  path: \"<REQUIRED>\"",
   "  # inline: |",
   "  #   users:",
   "  #     \"*\":",
   "  #       $schema:",
   "  #         name: string",
   "  #         age: number",
   "",
   "declaration:",
   "  # Document key holding a document's field schema.",
   "  schema_key: \"$schema\"",
   "  # Collection key standing for any document name.",
   "  generic_document_key: \"*\"",
   "",
   "resolution:",
   "  # Collection nesting levels searched by collection-group lookups.",
   "  max_traversal_depth: 64"]

def template : String := String.join (templateLines.map (· ++ "\n"))

/-- Why a template is not written. -/
inductive TemplateError
  | alreadyExists (path : FilePath)
  | file (error : FileError)
  deriving DecidableEq

def TemplateError.message : TemplateError → String
  | alreadyExists path => "Configuration file already exists: " ++ path.text
  | file error => error.message

/-- Writes the template to a path where nothing is yet; the result is the absolute path. -/
def writeTemplate {m : Type → Type} [Monad m] (fs : FileSystem m) (path : FilePath) :
    ExceptT TemplateError m FilePath := do
  let resolved : ExceptT TemplateError m FilePath := (ExceptT.mk (fs.resolve path)).adapt .file
  if ← (ExceptT.mk (fs.isPresent path)).adapt TemplateError.file then
    throw (.alreadyExists (← resolved))
  (fs.writeText path template).adapt .file
  resolved

end SchemaAtlas.Configuration
