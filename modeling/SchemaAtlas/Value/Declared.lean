import SchemaAtlas.FieldType.Expression
import SchemaAtlas.Value.Shown

/-!
# Declared types

The type that a declaration gives to a field: a text is a type expression, a mapping lists the fields
of a map. A mapping that contains itself declares no finite type.
-/
namespace SchemaAtlas

/-- Why a value declares no type. -/
inductive DeclaredTypeError
  | expression (error : ExpressionError)
  | fieldName (shown : String)
  | notAType (kindName : String)
  /-- The declaration refers back to one of its own containers. -/
  | endless
  deriving DecidableEq

def DeclaredTypeError.message : DeclaredTypeError → String
  | expression error => error.message
  | fieldName shown => "Map field names must be strings, got " ++ shown ++ "."
  | notAType kindName =>
    "Field types must be expression strings or mappings, got " ++ kindName ++ "."
  | endless => "The field declaration contains itself."

namespace Value

mutual

/-- The type that a value declares. -/
def declaredType : Value → Except DeclaredTypeError FieldType
  | text source => (FieldType.parse source).mapError .expression
  | mapping entries => (declaredFields entries).map fun fields => .map (Fields.ofList fields)
  | enclosingMapping _ => .error .endless
  | v => .error (.notAType v.kindName)

def declaredFields : List (Value × Value) → Except DeclaredTypeError (List (String × FieldType))
  | [] => .ok []
  | (key, v) :: rest =>
    match key with
    | text name =>
      match declaredType v with
      | .error e => .error e
      | .ok type =>
        match declaredFields rest with
        | .error e => .error e
        | .ok fields => .ok ((name, type) :: fields)
    | key => .error (.fieldName key.shown)

end

end Value
end SchemaAtlas
