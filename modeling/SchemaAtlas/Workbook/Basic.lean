import SchemaAtlas.Text.Blank

/-!
# Workbooks

Sheets of cells, as far as they matter here: texts and counts, ranges shown as one cell, widths of
columns, and named styles. A text with a control character cannot stand in a cell.
-/
namespace SchemaAtlas

inductive Cell
  | text (value : String)
  | count (value : Nat)
  deriving DecidableEq

/-- The place of a cell, with rows and columns counted from one. -/
structure CellAddress where
  row : Nat
  column : Nat
  deriving DecidableEq

/-- A row of cells that are shown as one. -/
structure CellRange where
  row : Nat
  firstColumn : Nat
  lastColumn : Nat
  deriving DecidableEq

structure Sheet where
  name : String
  /-- The rows from the first one on, all of the same length. -/
  rows : List (List (Option Cell))
  merged : List CellRange
  /-- The widths of the columns from the first one on, where they are set. -/
  widths : List Nat
  /-- The cells with a style that is not the normal one, row by row. -/
  styles : List (CellAddress × String)
  deriving DecidableEq

structure Workbook where
  sheets : List Sheet
  deriving DecidableEq

/-- The letters of a column counted from one: after `Z` comes `AA`. -/
def columnLetters (column : Nat) : String :=
  String.ofList (letters column column [])
where
  letters : (bound : Nat) → (column : Nat) → List Char → List Char
    | 0, _, done => done
    | _, 0, done => done
    | bound + 1, column + 1, done =>
      letters bound (column / 26) (Char.ofNat (0x41 + column % 26) :: done)

def CellAddress.text (a : CellAddress) : String := columnLetters a.column ++ toString a.row

def CellRange.text (r : CellRange) : String :=
  (CellAddress.mk r.row r.firstColumn).text ++ ":" ++ (CellAddress.mk r.row r.lastColumn).text

/-- A text that cannot stand in a cell. -/
structure CellError where
  text : String
  deriving DecidableEq

def CellError.message (e : CellError) : String := e.text ++ " cannot be used in worksheets."

namespace Cell

/-- The greatest number of characters in a cell; what is beyond is cut off. -/
def textLimit : Nat := 32767

/-- A control character other than a tab or a line break. -/
def isControl (c : Char) : Bool :=
  c.toNat < 0x20 && c != '\t' && c != '\n' && c != '\r'

/-- The cell with a text. An empty text leaves its cell empty. -/
def ofText (content : String) : Except CellError (Option Cell) :=
  let shown := content.toList.take textLimit
  if shown.any isControl then .error ⟨String.ofList shown⟩
  else .ok (if shown.isEmpty then none else some (.text (String.ofList shown)))

/-- How a text is put into a cell. -/
abbrev Filler := String → Except CellError (Option Cell)

/-- The cell with a text, if there is a text. -/
def fillWith (fill : Filler) : Option String → Except CellError (Option Cell)
  | some content => fill content
  | none => .ok none

end Cell
end SchemaAtlas
