import SchemaAtlas.Query.Operator
import SchemaAtlas.Value.Inferred

/-!
# Predicates

A predicate is a field, an operator and the type of what the field is compared with. Operators that
take alternatives compare with the type of each item of a sequence.
-/
namespace SchemaAtlas

/-- What a field is compared with. -/
inductive Comparison
  | nothing
  | single (type : FieldType)
  | candidates (types : List FieldType)

/-- A filter on a field. A field that is no text cannot be looked up in a schema. -/
structure Predicate where
  field : Value
  operator : Operator
  comparison : Comparison

/-- Why a query cannot be built or applied. -/
inductive QueryError
  | operator (error : OperatorError)
  /-- Several types are given to an operator that compares with one. -/
  | severalTypes
  /-- The compared value has no finite type. -/
  | endlessValue
  /-- The selected fields are not a collection of possible names. -/
  | selection
  deriving DecidableEq

def QueryError.message : QueryError → String
  | operator error => error.message
  | severalTypes => "This operator compares against a single field type."
  | endlessValue => "The compared value contains itself."
  | selection => "The selected fields are not names."

namespace Comparison

/-- The comparison of an operator with a value. -/
def ofValue (operator : Operator) (value : Value) : Comparison :=
  if operator = .hasField then nothing
  else if operator.takesCandidates then
    match value.items? with
    | some items => candidates (items.map Value.typeOf)
    | none => single value.typeOf
  else single value.typeOf

/-- Whether the types that the comparison needs are all finite. -/
def isFinite (operator : Operator) (value : Value) : Bool :=
  if operator = .hasField then true
  else if operator.takesCandidates then
    match value.items? with
    | some items => !items.any Value.isEndless
    | none => !value.isEndless
  else !value.isEndless

end Comparison

namespace Predicate

/-- The predicate that compares a field with a value. -/
def ofValue (field : Value) (operator : Operator) (value : Value) : Except QueryError Predicate :=
  if Comparison.isFinite operator value then
    .ok ⟨field, operator, Comparison.ofValue operator value⟩
  else .error .endlessValue

/-- The predicate with an operator given by its symbol, which is looked up first. -/
def ofSymbol (field symbol value : Value) : Except QueryError Predicate := do
  ofValue field (← (Operator.ofValue symbol).mapError .operator) value

end Predicate
end SchemaAtlas
