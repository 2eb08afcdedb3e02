import SchemaAtlas.Tree.Inventory
import SchemaAtlas.Workbook.Basic

/-!
# The inventory as a workbook

Two sheets: the rows of an inventory below their headings, and its totals.
-/
namespace SchemaAtlas.Workbook

def collectionsSheet : String := "Collections"

def summarySheet : String := "Summary"

def headings : List String := ["Collection path", "Document key", "Field", "Type"]

/-- The headings above the headings, each over two columns. -/
def groupHeadings : List (String × CellRange) :=
  [("Location", ⟨1, 1, 2⟩), ("Schema", ⟨1, 3, 4⟩)]

/-- The texts above the rows of an inventory. -/
def headingTexts : List (List (Option String)) :=
  [groupHeadings.flatMap fun heading => [some heading.1, none], headings.map some]

def headingStyle : String := "Headline 1"

/-- A column is a little wider than its longest text, within limits. -/
def columnWidth (longest : Nat) : Nat := max 12 (min (longest + 6) 60)

def rowTexts (row : InventoryRow) : List (Option String) :=
  [some row.collectionPath, some row.documentKey, row.fieldName, row.typeText]

/-- The lengths of the longest texts of the columns. -/
def longest (lengths : List Nat) (texts : List (Option String)) : List Nat :=
  List.zipWith (fun length text => max length (text.getD "").length) lengths texts

/-- The sheet with the rows of an inventory. -/
def collectionsSheetOf (rows : List InventoryRow) (fill : Cell.Filler) : Except CellError Sheet := do
  let texts := rows.map rowTexts
  let cells ← (headingTexts ++ texts).mapM fun row => row.mapM (Cell.fillWith fill)
  return {
    name := collectionsSheet
    rows := cells
    merged := groupHeadings.map (·.2)
    widths := (texts.foldl longest (headings.map (·.length))).map columnWidth
    styles := groupHeadings.map fun heading =>
      (⟨heading.2.row, heading.2.firstColumn⟩, headingStyle) }

/-- All names of collection groups as one text. -/
def namesText (summary : InventorySummary) : String := Text.joinWith ", " summary.groupNames

/-- The sheet with the totals. -/
def summarySheetOf (summary : InventorySummary) (fill : Cell.Filler) : Except CellError Sheet := do
  let collections ← fill "collection_count"
  let documents ← fill "document_count"
  let groups ← fill "collection_group_names"
  let names ← fill (namesText summary)
  return {
    name := summarySheet
    rows :=
      [[collections, some (.count summary.collectionCount)],
       [documents, some (.count summary.documentCount)],
       [groups, names]]
    merged := []
    widths := []
    styles := [] }

/-- The workbook of an inventory; a text that cannot stand in a cell is reported. -/
def ofInventory (rows : List InventoryRow) (summary : InventorySummary) (fill : Cell.Filler) :
    Except CellError Workbook := do
  let collections ← collectionsSheetOf rows fill
  let totals ← summarySheetOf summary fill
  return ⟨[collections, totals]⟩

/-- The inventory workbook of a schema tree. -/
def ofTree (t : SchemaTree) (fill : Cell.Filler) : Except CellError Workbook :=
  ofInventory t.inventoryRows t.inventorySummary fill

end SchemaAtlas.Workbook
