import SchemaAtlas.Number
import SchemaAtlas.Ordered

/-!
# Field types

The types that a schema gives to the fields of a document. Unions are sets of alternatives: two of
them are the same if each holds every member of the other, in whatever order, and of members that
are the same the one put in first stays. The union without members is the type of no value.
-/
namespace SchemaAtlas

/-- The kinds of scalar value that a document store returns. -/
inductive Primitive
  | string | number | boolean | null | timestamp | bytes | geopoint | reference
  deriving DecidableEq

namespace Primitive

def all : List Primitive :=
  [string, number, boolean, null, timestamp, bytes, geopoint, reference]

def name : Primitive → String
  | string => "string"
  | number => "number"
  | boolean => "boolean"
  | null => "null"
  | timestamp => "timestamp"
  | bytes => "bytes"
  | geopoint => "geopoint"
  | reference => "reference"

def ofName? (name : String) : Option Primitive := all.find? (·.name == name)

end Primitive

/-- One concrete value as a type. Booleans are not numbers. -/
inductive Literal
  | text (value : String)
  | number (value : Number)
  | boolean (value : Bool)
  deriving DecidableEq

namespace Literal

/-- The primitive type of the values that the literal's value belongs to. -/
def base : Literal → Primitive
  | text _ => .string
  | number _ => .number
  | boolean _ => .boolean

/-- Literals are the same if their bases and values are; numbers are compared as quantities. -/
def same : Literal → Literal → Bool
  | text a, text b => a == b
  | number a, number b => a.same b
  | boolean a, boolean b => a == b
  | _, _ => false

end Literal

/-- The type of a field. A map without listed fields accepts any keys. -/
inductive FieldType
  | any
  | primitive (kind : Primitive)
  | literal (value : Literal)
  | array (element : FieldType)
  | map (fields : List (String × FieldType))
  | union (members : List FieldType)

/-- Fields with their types, in ascending order of distinct names. -/
abbrev Fields := List (String × FieldType)

namespace Fields

def names (fields : Fields) : List String := fields.map (·.1)

/-- The type of a field, if it is listed. -/
def get? (fields : Fields) (name : String) : Option FieldType :=
  fields.lookup name

/-- Gives a field a type, at its place in the order or in place of its former type. -/
def put (fields : Fields) (name : String) (type : FieldType) : Fields :=
  match fields with
  | [] => [(name, type)]
  | (other, former) :: rest =>
    if name = other then (name, type) :: rest
    else if name < other then (name, type) :: (other, former) :: rest
    else (other, former) :: put rest name type

/-- The fields of a list in which the last type of a name counts. -/
def ofList (entries : List (String × FieldType)) : Fields :=
  entries.foldl (fun fields entry => put fields entry.1 entry.2) []

end Fields

namespace FieldType

/-- The type of no value. -/
def never : FieldType := union []

/-- The type of maps with any keys. -/
def openMap : FieldType := map []

def text (value : String) : FieldType := literal (.text value)

def isAny : FieldType → Bool
  | any => true
  | _ => false

mutual

/-- Equality of types: unions as sets, literal numbers as quantities, all else by structure. -/
def same : FieldType → FieldType → Bool
  | any, any => true
  | primitive a, primitive b => a == b
  | literal a, literal b => a.same b
  | array a, array b => same a b
  | map as, map bs => sameFields as bs
  | union as, union bs => allIn as bs && bs.all fun b => hasSame as b
  | _, _ => false

/-- Equality of the field lists of two maps. -/
def sameFields : List (String × FieldType) → List (String × FieldType) → Bool
  | [], [] => true
  | (n, a) :: as, (m, b) :: bs => n == m && same a b && sameFields as bs
  | _, _ => false

/-- Whether every one of the first types is the same as one of the second. -/
def allIn : List FieldType → List FieldType → Bool
  | [], _ => true
  | a :: as, bs => bs.any (fun b => same a b) && allIn as bs

/-- Whether one of the types is the same as the given one. -/
def hasSame : List FieldType → FieldType → Bool
  | [], _ => false
  | a :: as, b => same a b || hasSame as b

end

/-- The alternatives of a union; any other type is its own only alternative. -/
def members : FieldType → List FieldType
  | union members => members
  | type => [type]

/-- The type of the values that one of the given members admits, for distinct members. -/
def ofMembers : List FieldType → FieldType
  | [type] => type
  | members => union members

/-- The union of types: nested unions are flattened, `any` absorbs all, a single member stands alone. -/
def unionOf (types : List FieldType) : FieldType :=
  if types.any isAny then any else ofMembers (distinctBy same (types.flatMap members))

/-- The element types of the arrays among a type's alternatives; anything may be an array of anything. -/
def arrayElements : FieldType → List FieldType
  | any => [any]
  | type => type.members.filterMap fun
    | array element => some element
    | _ => none

end FieldType
end SchemaAtlas
