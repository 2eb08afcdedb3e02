import SchemaAtlas.Files.Archive
import SchemaAtlas.Workbook.Basic

/-!
# Workbook files

The bytes of a workbook: an archive with one part for every sheet, one for the styles, and those
that say which parts there are. Texts stand in their cells and are not shared between them.
-/
namespace SchemaAtlas.Workbook

/-- A text as it stands between the tags of a part. A carriage return would be read as a line feed. -/
def escaped (text : String) : String :=
  String.join (text.toList.map escape)
where
  escape : Char → String
    | '&' => "&amp;"
    | '<' => "&lt;"
    | '>' => "&gt;"
    | '"' => "&quot;"
    | '\r' => "&#13;"
    | c => c.toString

/-- An element: its name, its attributes, and what it holds. -/
def element (name : String) (attributes : List (String × String)) (content : String) : String :=
  let opening := name ++
    String.join (attributes.map fun a => " " ++ a.1 ++ "=\"" ++ escaped a.2 ++ "\"")
  if content.isEmpty then "<" ++ opening ++ "/>"
  else "<" ++ opening ++ ">" ++ content ++ "</" ++ name ++ ">"

def elements (name : String) (items : List (List (String × String))) : String :=
  String.join (items.map fun attributes => element name attributes "")

/-- The names of the styles in use, in order of their first use; cells refer to them by number. -/
def styleNames (w : Workbook) : List String :=
  ((w.sheets.flatMap (·.styles)).map (·.2)).eraseDups

/-- The number of the style of a cell; zero is the normal one. -/
def styleNumber (styles : List String) (s : Sheet) (address : CellAddress) : Nat :=
  match s.styles.lookup address with
  | some name => styles.idxOf name + 1
  | none => 0

def cellElement (styles : List String) (s : Sheet) (address : CellAddress) (cell : Cell) : String :=
  let attributes := [("r", address.text), ("s", toString (styleNumber styles s address))]
  match cell with
  | .count n => element "c" attributes (element "v" [] (toString n))
  | .text value =>
    element "c" (attributes ++ [("t", "inlineStr")])
      (element "is" [] (element "t" [("xml:space", "preserve")] (escaped value)))

def rowElement (styles : List String) (s : Sheet) (row : Nat) (cells : List (Option Cell)) : String :=
  element "row" [("r", toString row)]
    (String.join (cells.zipIdx.map fun (cell, i) =>
      match cell with
      | some cell => cellElement styles s ⟨row, i + 1⟩ cell
      | none => ""))

def declarationLine : String := "<?xml version=\"1.0\" encoding=\"UTF-8\" standalone=\"yes\"?>\n"

/-- The name of a vocabulary of elements, by the words that tell it from the others. -/
def vocabulary (words : List String) : String :=
  Text.joinWith "/" (["http:", "", "schemas.openxmlformats.org"] ++ words)

def sheetVocabulary : String := vocabulary ["spreadsheetml", "2006", "main"]

def relationVocabulary : String := vocabulary ["officeDocument", "2006", "relationships"]

def packageVocabulary (part : String) : String := vocabulary ["package", "2006", part]

def sheetPart (styles : List String) (s : Sheet) : String :=
  let columns := s.widths.zipIdx.map fun (width, i) =>
    [("min", toString (i + 1)), ("max", toString (i + 1)), ("width", toString width),
     ("customWidth", "1")]
  let merged := s.merged.map fun range => [("ref", range.text)]
  let rows := s.rows.zipIdx.map fun (cells, i) => rowElement styles s (i + 1) cells
  element "worksheet" [("xmlns", sheetVocabulary)]
    ((if columns.isEmpty then "" else element "cols" [] (elements "col" columns)) ++
      element "sheetData" [] (String.join rows) ++
      (if merged.isEmpty then "" else element "mergeCells" [] (elements "mergeCell" merged)))

/-- Every style has the same look, apart from its name; all but the first are in bold. -/
def stylesPart (styles : List String) : String :=
  let all := ("Normal" :: styles).zipIdx
  let formats := all.map fun (_, i) =>
    [("numFmtId", "0"), ("fontId", if i = 0 then "0" else "1"), ("fillId", "0"), ("borderId", "0"),
     ("xfId", toString i)]
  let nameless := formats.map fun format => format.dropLast
  element "styleSheet" [("xmlns", sheetVocabulary)]
    (element "fonts" []
        (element "font" [] (elements "sz" [[("val", "11")]]) ++
          element "font" [] (elements "b" [[]] ++ elements "sz" [[("val", "15")]])) ++
      element "fills" []
        (element "fill" [] (elements "patternFill" [[("patternType", "none")]]) ++
          element "fill" [] (elements "patternFill" [[("patternType", "gray125")]])) ++
      element "borders" [] (elements "border" [[]]) ++
      element "cellStyleXfs" [] (elements "xf" nameless) ++
      element "cellXfs" [] (elements "xf" formats) ++
      element "cellStyles" []
        (elements "cellStyle" (all.map fun (name, i) => [("name", name), ("xfId", toString i)])))

/-- The numbers of the sheets, from one on. -/
def sheetNumbers (w : Workbook) : List Nat := (List.range w.sheets.length).map (· + 1)

def sheetFile (n : Nat) : String := "worksheets/sheet" ++ toString n ++ ".xml"

def workbookPart (w : Workbook) : String :=
  let sheets := w.sheets.zipIdx.map fun (s, i) =>
    [("name", s.name), ("sheetId", toString (i + 1)), ("r:id", "rId" ++ toString (i + 1))]
  element "workbook" [("xmlns", sheetVocabulary), ("xmlns:r", relationVocabulary)]
    (element "sheets" [] (elements "sheet" sheets))

def relationsPart (relations : List (String × String)) : String :=
  element "Relationships" [("xmlns", packageVocabulary "relationships")]
    (elements "Relationship" (relations.zipIdx.map fun (relation, i) =>
      [("Id", "rId" ++ toString (i + 1)), ("Type", relationVocabulary ++ "/" ++ relation.1),
       ("Target", relation.2)]))

def contentTypesPart (w : Workbook) : String :=
  let kind (name : String) := "application/vnd.openxmlformats-officedocument.spreadsheetml." ++ name ++ "+xml"
  let parts :=
    [("/xl/workbook.xml", kind "sheet.main"), ("/xl/styles.xml", kind "styles")] ++
      w.sheetNumbers.map fun n => ("/xl/" ++ sheetFile n, kind "worksheet")
  element "Types" [("xmlns", packageVocabulary "content-types")]
    (elements "Default"
        [[("Extension", "rels"),
          ("ContentType", "application/vnd.openxmlformats-package.relationships+xml")],
         [("Extension", "xml"), ("ContentType", "application/xml")]] ++
      elements "Override"
        (parts.map fun part => [("PartName", part.1), ("ContentType", part.2)]))

/-- The parts of a workbook file by their names. -/
def parts (w : Workbook) : List (String × String) :=
  let styles := w.styleNames
  let sheetRelations := w.sheetNumbers.map fun n => ("worksheet", sheetFile n)
  [("[Content_Types].xml", w.contentTypesPart),
   ("_rels/.rels", relationsPart [("officeDocument", "xl/workbook.xml")]),
   ("xl/workbook.xml", w.workbookPart),
   ("xl/_rels/workbook.xml.rels", relationsPart (sheetRelations ++ [("styles", "styles.xml")])),
   ("xl/styles.xml", stylesPart styles)] ++
    w.sheets.zipIdx.map fun (s, i) => ("xl/" ++ sheetFile (i + 1), sheetPart styles s)

/-- The bytes of a workbook file. -/
def encode (w : Workbook) : ByteArray :=
  Archive.encode (w.parts.map fun part => ⟨part.1, (declarationLine ++ part.2).toUTF8⟩)

end SchemaAtlas.Workbook
