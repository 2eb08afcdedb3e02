import SchemaAtlas.Files.System
import SchemaAtlas.Tree.DeclarationText

/-!
# Declarations in files

A declaration in a file of its own.
-/
namespace SchemaAtlas

/-- Why a file gives no declaration. -/
inductive DeclarationFileError
  | notFound (path : FilePath)
  | file (error : FileError)
  | text (error : DeclarationTextError)
  deriving DecidableEq

def DeclarationFileError.message : DeclarationFileError → String
  | notFound path => "Schema declaration file not found: " ++ path.text
  | file error => error.message
  | text error => error.message

/-- Reads the declaration in a file. -/
def Graph.ofDeclarationFile {m : Type → Type} [Monad m] (fs : FileSystem m) (path : FilePath)
    (read : Yaml.Parser := Yaml.read) : ExceptT DeclarationFileError m Graph := do
  if !(← (ExceptT.mk (fs.isPresent path)).adapt DeclarationFileError.file) then
    throw (.notFound path)
  let text ← (fs.readText path).adapt .file
  match Graph.ofDeclarationText text read with
  | .ok g => return g
  | .error e => throw (.text e)

end SchemaAtlas
