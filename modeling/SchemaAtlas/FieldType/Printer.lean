import SchemaAtlas.FieldType.Basic
import SchemaAtlas.Text.Blank

/-!
# Rendered types

The readable form of a type. The alternatives of a union appear in the order of their texts, so two
types that are the same set of the same texts have one rendering.
-/
namespace SchemaAtlas

def Literal.render : Literal → String
  | .text value => "'" ++ value ++ "'"
  | .number value => value.text
  | .boolean value => if value then "true" else "false"

namespace FieldType

mutual

def render : FieldType → String
  | any => "any"
  | primitive kind => kind.name
  | literal value => value.render
  | array element => "array<" ++ render element ++ ">"
  | map fields =>
    match fields with
    | [] => "map"
    | field :: rest => "\x7b" ++ Text.joinWith ", " (renderFields (field :: rest)) ++ "\x7d"
  | union members =>
    match members with
    | [] => "never"
    | member :: rest => Text.joinWith " | " (sortTexts (renderAll (member :: rest)))

def renderFields : List (String × FieldType) → List String
  | [] => []
  | (name, type) :: rest => (name ++ ": " ++ render type) :: renderFields rest

def renderAll : List FieldType → List String
  | [] => []
  | type :: rest => render type :: renderAll rest

end

end FieldType
end SchemaAtlas
