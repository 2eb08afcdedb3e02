import SchemaAtlas.Files.System
import SchemaAtlas.Workbook.Inventory

/-!
# Writing inventories

The inventory of a tree as a workbook file. The workbook is complete before anything is written, so a
text that cannot stand in a cell leaves the files as they are.
-/
namespace SchemaAtlas

/-- Why an inventory is not written. -/
inductive ExportError
  | cell (error : CellError)
  | file (error : FileError)
  deriving DecidableEq

def ExportError.message : ExportError → String
  | cell error => error.message
  | file error => error.message

namespace SchemaTree

variable {m : Type → Type} [Monad m]

/-- Writes a workbook with the directories above it; the result is its absolute path. -/
def writeWorkbook (fs : FileSystem m) (workbook : Workbook) (path : FilePath) :
    ExceptT FileError m FilePath := do
  fs.ensureDirectories path.names.length path.parent
  ExceptT.mk (fs.write path (.workbook workbook))
  ExceptT.mk (fs.resolve path)

/-- Writes the inventory of a tree. -/
def writeInventory (t : SchemaTree) (fs : FileSystem m) (path : FilePath)
    (fill : Cell.Filler := Cell.ofText) : ExceptT ExportError m FilePath :=
  match Workbook.ofTree t fill with
  | .error e => throw (.cell e)
  | .ok workbook => (writeWorkbook fs workbook path).adapt .file

end SchemaTree
end SchemaAtlas
