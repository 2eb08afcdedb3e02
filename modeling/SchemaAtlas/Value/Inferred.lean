import SchemaAtlas.Value.Shown

/-!
# Inferred types

The narrowest type of a concrete value: scalars with a literal form are their own type, sequences are
arrays of the union of their items' types, mappings list every key. About sets and unknown objects
nothing is known. A value that refers back to one of its own containers has no finite type.
-/
namespace SchemaAtlas.Value

mutual

def typeOf : Value → FieldType
  | null => .primitive .null
  | boolean b => .literal (.boolean b)
  | number n => .literal (.number n)
  | text s => .literal (.text s)
  | bytes _ _ => .primitive .bytes
  | date _ | moment _ => .primitive .timestamp
  | sequence _ items => .array (.unionOf (typesOf items))
  | mapping entries => .map (Fields.ofList (fieldsOf entries))
  | fieldType type => type
  | set _ | sealed | path _ | enclosingSequence _ _ | enclosingMapping _ => .any

def typesOf : List Value → List FieldType
  | [] => []
  | v :: vs => typeOf v :: typesOf vs

/-- The fields of a mapping, each named by the text of its key. -/
def fieldsOf : List (Value × Value) → List (String × FieldType)
  | [] => []
  | (key, v) :: rest => (key.nameText, typeOf v) :: fieldsOf rest

end

mutual

/--
Whether inferring the type of the value would follow a back reference for ever. The items of a
sequence are looked at one after the other, and none behind the first of unknown type.
-/
def isEndless : Value → Bool
  | enclosingSequence _ _ | enclosingMapping _ => true
  | sequence _ items => anyEndless items
  | mapping entries => anyEntryEndless entries
  | _ => false

def anyEndless : List Value → Bool
  | [] => false
  | v :: vs => isEndless v || (!(typeOf v).isAny && anyEndless vs)

def anyEntryEndless : List (Value × Value) → Bool
  | [] => false
  | (_, v) :: rest => isEndless v || anyEntryEndless rest

end

/-- The inferred type, unless inferring it would not end. -/
def typeOf? (v : Value) : Option FieldType := if v.isEndless then none else some v.typeOf

/-- The items of a value that is a sequence of single values; texts and byte strings are not. -/
def items? : Value → Option (List Value)
  | sequence _ items => some items
  | _ => none

end SchemaAtlas.Value
