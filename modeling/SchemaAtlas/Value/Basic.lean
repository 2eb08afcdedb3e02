import SchemaAtlas.Calendar
import SchemaAtlas.FieldType.Basic
import SchemaAtlas.Path

/-!
# Values

The values that queries compare with, that paths may be given as, and that declarations are made of:
scalars, byte strings, dates, sequences, sets and mappings, and a few that carry a meaning of their
own, such as a field type or a checked path. A value is finite; where the data it was read from
refers back to an enclosing container, it holds a back reference.
-/
namespace SchemaAtlas

inductive SequenceKind
  | list | tuple
  deriving DecidableEq

inductive Value
  | null
  | boolean (value : Bool)
  | number (value : Number)
  | text (value : String)
  /-- A byte string, which may be of the kind that can change. -/
  | bytes (data : List Nat) (mutable : Bool)
  | date (value : Date)
  | moment (value : Moment)
  | sequence (kind : SequenceKind) (items : List Value)
  | set (members : List Value)
  /-- Pairs of keys and values in their order, with distinct keys. -/
  | mapping (entries : List (Value × Value))
  /-- An object about which nothing is known. -/
  | sealed
  | fieldType (type : FieldType)
  | path (path : Path)
  /-- The sequence that stands so many containers up, one being the nearest. -/
  | enclosingSequence (kind : SequenceKind) (levels : Nat)
  /-- The mapping that stands so many containers up. -/
  | enclosingMapping (levels : Nat)

namespace Value

def integer (i : Int) : Value := number (.integer i)

def isText : Value → Bool
  | text _ => true
  | _ => false

/-- Equality of scalars as keys: numbers by quantity, with the booleans as one and zero. -/
def keyQuantity? : Value → Option Quantity
  | boolean b => some (.finite (if b then 1 else 0))
  | number n => some n.quantity
  | _ => none

mutual

/-- Whether two values are one key of a mapping. Objects about which nothing is known never are. -/
def sameKey : Value → Value → Bool
  | null, null => true
  | boolean a, b => (boolean a).keyQuantity? == b.keyQuantity?
  | number a, b => (number a).keyQuantity? == b.keyQuantity?
  | text a, text b => a == b
  | bytes a _, bytes b _ => a == b
  | date a, date b => a == b
  | moment a, moment b => a.same b
  | sequence k as, sequence l bs => k == l && sameKeys as bs
  | fieldType a, fieldType b => a.same b
  | path a, path b => a == b
  | _, _ => false

def sameKeys : List Value → List Value → Bool
  | [], [] => true
  | a :: as, b :: bs => sameKey a b && sameKeys as bs
  | _, _ => false

end

mutual

/-- Whether a value can be a key: it holds no container that can change. -/
def isHashable : Value → Bool
  | sequence .list _ | set _ | mapping _ | bytes _ true => false
  | enclosingSequence .list _ | enclosingMapping _ => false
  | sequence .tuple items => allHashable items
  | _ => true

def allHashable : List Value → Bool
  | [] => true
  | v :: vs => isHashable v && allHashable vs

end

/-- The value behind a key. -/
def get? (key : Value) (entries : List (Value × α)) : Option α :=
  (entries.find? fun entry => entry.1.sameKey key).map (·.2)

/-- Sets the value behind a key, at the key's first place. -/
def putEntry (key : Value) (value : α) : List (Value × α) → List (Value × α)
  | [] => [(key, value)]
  | (other, former) :: rest =>
    if other.sameKey key then (other, value) :: rest else (other, former) :: putEntry key value rest

/-- The entries of a mapping in which a repeated key keeps its place and takes its last value. -/
def entriesOf (pairs : List (Value × α)) : List (Value × α) :=
  pairs.foldl (fun entries pair => putEntry pair.1 pair.2 entries) []

/-- Whether a value counts as absent: nothing, zero, or a text or container without content. -/
def isVoid : Value → Bool
  | null => true
  | boolean b => !b
  | number n => n.quantity = .finite 0
  | text s => s.isEmpty
  | bytes data _ => data.isEmpty
  | sequence _ items => items.isEmpty
  | set members => members.isEmpty
  | mapping entries => entries.isEmpty
  | _ => false

/-- The name of the kind of value, as messages give it. -/
def kindName : Value → String
  | null => "NoneType"
  | boolean _ => "bool"
  | number (.integer _) => "int"
  | number (.double _) => "float"
  | text _ => "str"
  | bytes _ false => "bytes"
  | bytes _ true => "bytearray"
  | date _ => "date"
  | moment _ => "datetime"
  | sequence .list _ | enclosingSequence .list _ => "list"
  | sequence .tuple _ | enclosingSequence .tuple _ => "tuple"
  | set _ => "set"
  | mapping _ | enclosingMapping _ => "dict"
  | sealed => "Opaque"
  | fieldType type =>
    match type with
    | .any => "AnyType"
    | .primitive _ => "PrimitiveType"
    | .literal _ => "LiteralType"
    | .array _ => "ArrayType"
    | .map _ => "MapType"
    | .union _ => "UnionType"
  | path _ => "ParsedPath"

end Value
end SchemaAtlas
