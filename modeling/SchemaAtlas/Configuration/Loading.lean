import SchemaAtlas.Configuration.Basic
import SchemaAtlas.Files.System

/-!
# Loading configurations

A configuration is read from its file, and its declaration from the file that it names. The tree is
built once to see that the declaration is sound.
-/
namespace SchemaAtlas

open Yaml (YamlError)

/-- Why loading fails: the configuration is refused, a file cannot be read, or a value is impossible. -/
inductive LoadError
  | configuration (error : ConfigurationError)
  | file (error : FileError)
  | value (error : YamlError)
  deriving DecidableEq

namespace LoadError

def ofDeclarationText : DeclarationTextError → LoadError
  | .value error => value error
  | error => configuration (.declarationText error)

def message : LoadError → String
  | configuration error => error.message
  | file error => error.message
  | value error => error.message

end LoadError

namespace Configuration

/-- The tree that a declaration with the given keys declares. -/
def treeOf (text : String) (settings : DeclarationSettings) (read : Yaml.Parser := Yaml.read) :
    Except LoadError SchemaTree := do
  let g ← (Graph.ofDeclarationText text read).mapError .ofDeclarationText
  (SchemaTree.ofGraph g settings.keys).mapError fun e => .configuration (.declaration e)

/-- The tree that a configuration declares. -/
def tree (c : Configuration) (read : Yaml.Parser := Yaml.read) : Except LoadError SchemaTree :=
  treeOf c.schema.text c.declaration read

/-- The entries of the configuration that a text is. -/
def entriesOfText (text : String) (read : Yaml.Parser := Yaml.read) :
    Except LoadError (Graph × List (Value × Part)) := do
  let g ← (read text).mapError fun
    | .malformed => .configuration .malformed
    | error => .value error
  let entries ← (rootEntries g).mapError .configuration
  return (g, entries)

variable {m : Type → Type} [Monad m]

def isPresent (fs : FileSystem m) (path : FilePath) : ExceptT LoadError m Bool :=
  (ExceptT.mk (fs.isPresent path)).adapt .file

def readText (fs : FileSystem m) (path : FilePath) : ExceptT LoadError m String :=
  (fs.readText path).adapt .file

def reject (error : ConfigurationError) : ExceptT LoadError m α := throw (.configuration error)

/-- A step that touches no file. -/
def check (result : Except ConfigurationError α) : ExceptT LoadError m α :=
  match result with
  | .ok a => pure a
  | .error e => reject e

/-- The declaration that a definition leads to; a relative path starts at the configuration's file. -/
def schemaSource (fs : FileSystem m) (directory : FilePath) (definition : SchemaDefinition) :
    ExceptT LoadError m SchemaSource := do
  let source ←
    match definition with
    | .inline text => pure ⟨text, none⟩
    | .file path =>
      let path ←
        if path.isAbsolute then pure path
        else (ExceptT.mk (fs.resolve (directory.below path))).adapt LoadError.file
      if !(← isPresent fs path) then reject (.schemaFileNotFound path)
      pure ⟨← readText fs path, some path⟩
  if Text.isBlankText source.text then reject .emptySchema
  return source

/-- Loads the configuration at a path. -/
def load (fs : FileSystem m) (path : FilePath) (read : Yaml.Parser := Yaml.read) :
    ExceptT LoadError m Configuration := do
  if !(← isPresent fs path) then reject (.fileNotFound path)
  let (g, entries) ← liftExcept (entriesOfText (← readText fs path) read)
  let schema ← schemaSource fs path.parent (← check (schemaDefinition g entries))
  let declaration ← check (declarationSettings g entries)
  let depth ← check (searchDepth g entries)
  let configuration : Configuration := ⟨path, schema, declaration, depth⟩
  let _ ← liftExcept (configuration.tree read)
  return configuration
where
  liftExcept {α : Type} (result : Except LoadError α) : ExceptT LoadError m α := ExceptT.mk (pure result)

end Configuration
end SchemaAtlas
