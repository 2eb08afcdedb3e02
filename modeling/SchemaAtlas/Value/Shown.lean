import SchemaAtlas.Text.Quoted
import SchemaAtlas.Value.Basic

/-!
# Shown values

The form in which messages show a value, and the text of a value that is used as a name. The two
differ only for texts, dates and moments: a text as a name is itself, without quotes.
-/
namespace SchemaAtlas

def shownBoolean (b : Bool) : String := if b then "True" else "False"

def Literal.shown : Literal → String
  | .text s => "LiteralType(base='string', value=" ++ Text.quoted s ++ ")"
  | .number n => "LiteralType(base='number', value=" ++ n.text ++ ")"
  | .boolean b => "LiteralType(base='boolean', value=" ++ shownBoolean b ++ ")"

/-- Items between parentheses; a comma marks a single item as a row of one. -/
def shownTuple : List String → String
  | [item] => "(" ++ item ++ ",)"
  | items => "(" ++ Text.joinWith ", " items ++ ")"

namespace FieldType

mutual

def shown : FieldType → String
  | any => "AnyType()"
  | primitive kind => "PrimitiveType(name=" ++ Text.quoted kind.name ++ ")"
  | literal value => value.shown
  | array element => "ArrayType(element=" ++ shown element ++ ")"
  | map fields => "MapType(fields=" ++ shownTuple (shownFields fields) ++ ")"
  | union members =>
    match members with
    | [] => "UnionType(members=frozenset())"
    | member :: rest =>
      "UnionType(members=frozenset(\x7b" ++ Text.joinWith ", " (shownAll (member :: rest)) ++ "\x7d))"

def shownFields : List (String × FieldType) → List String
  | [] => []
  | (name, type) :: rest => shownTuple [Text.quoted name, shown type] :: shownFields rest

def shownAll : List FieldType → List String
  | [] => []
  | type :: rest => shown type :: shownAll rest

end

end FieldType

def Segment.shown (s : Segment) : String :=
  let kind :=
    match s.kind with
    | .literal => "<SegmentKind.LITERAL: 'literal'>"
    | .wildcard => "<SegmentKind.WILDCARD: 'wildcard'>"
  "PathSegment(text=" ++ Text.quoted s.text ++ ", kind=" ++ kind ++ ")"

namespace Value

mutual

/-- A value as messages show it. -/
def shown : Value → String
  | null => "None"
  | boolean b => shownBoolean b
  | number n => n.text
  | text s => Text.quoted s
  | bytes data mutable =>
    if mutable then "bytearray(" ++ Text.quotedBytes data ++ ")" else Text.quotedBytes data
  | date d => d.shown
  | moment m => m.shown
  | sequence .list items => "[" ++ Text.joinWith ", " (shownAll items) ++ "]"
  | sequence .tuple items => shownTuple (shownAll items)
  | set members =>
    match members with
    | [] => "set()"
    | member :: rest => "\x7b" ++ Text.joinWith ", " (shownAll (member :: rest)) ++ "\x7d"
  | mapping entries => "\x7b" ++ Text.joinWith ", " (shownEntries entries) ++ "\x7d"
  | sealed => "<opaque>"
  | fieldType type => type.shown
  | path p => "ParsedPath(segments=" ++ shownTuple (p.segments.map (·.shown)) ++ ")"
  | enclosingSequence .list _ => "[...]"
  | enclosingSequence .tuple _ => "(...)"
  | enclosingMapping _ => "\x7b...\x7d"

def shownAll : List Value → List String
  | [] => []
  | v :: vs => shown v :: shownAll vs

def shownEntries : List (Value × Value) → List String
  | [] => []
  | (key, value) :: rest => (shown key ++ ": " ++ shown value) :: shownEntries rest

end

/-- The text of a value where it stands for a name. -/
def nameText : Value → String
  | text s => s
  | date d => d.text
  | moment m => m.text " "
  | v => v.shown

end Value
end SchemaAtlas
