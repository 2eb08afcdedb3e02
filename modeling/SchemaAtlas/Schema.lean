import SchemaAtlas.FieldType.Printer

/-!
# Document schemas

The declared fields of one kind of document. Schemas are compared by their fields alone, and a field
inside a map is reached by a path with a dot between the names.
-/
namespace SchemaAtlas

structure Schema where
  fields : Fields

namespace Schema

def empty : Schema := ⟨[]⟩

def ofList (entries : List (String × FieldType)) : Schema := ⟨Fields.ofList entries⟩

/-- Equality of the field lists, with types compared as types. -/
def same (a b : Schema) : Bool := FieldType.sameFields a.fields b.fields

def fieldNames (s : Schema) : List String := s.fields.names

/-- The type reached from a type by stepping into the named fields of maps. -/
def descend (type : FieldType) : List String → Option FieldType
  | [] => some type
  | name :: rest =>
    match type with
    | .map fields =>
      match Fields.get? fields name with
      | some next => descend next rest
      | none => none
    | _ => none

/--
The type at a field path. A field whose name is the whole path comes first; otherwise the path is
split at its dots.
-/
def fieldAt? (s : Schema) (path : String) : Option FieldType :=
  match Fields.get? s.fields path with
  | some type => some type
  | none =>
    match Text.split '.' path with
    | [] | [_] => none
    | head :: rest =>
      match Fields.get? s.fields head with
      | some type => descend type rest
      | none => none

def hasField (s : Schema) (path : String) : Bool := (s.fieldAt? path).isSome

/-- The schema with only the named fields. -/
def restrictedTo (s : Schema) (names : List String) : Schema :=
  ⟨s.fields.filter fun field => names.contains field.1⟩

/-- The names of the fields with their rendered types, by which schemas are put in order. -/
def rendered (s : Schema) : List (String × String) :=
  s.fields.map fun field => (field.1, field.2.render)

/-- Order of fields by name and then by rendered type. -/
def renderedLe (a b : String × String) : Bool :=
  if a.1 = b.1 then decide (a.2 ≤ b.2) else decide (a.1 ≤ b.1)

/-- Order of schemas by their rendered fields. -/
def le (a b : Schema) : Bool := listLe renderedLe (· == ·) a.rendered b.rendered

end Schema
end SchemaAtlas
