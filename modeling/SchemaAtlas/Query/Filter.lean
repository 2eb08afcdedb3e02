import SchemaAtlas.FieldType.Subtyping
import SchemaAtlas.Query.Predicate
import SchemaAtlas.SchemaUnion
import SchemaAtlas.Diagnostics

/-!
# Filters

Narrowing a union of schemas to those that can satisfy a predicate. A schema has to have the field; a
field that none of the declared schemas has, or one that is no text, says nothing about the schemas,
and the result is the generic union. What is declared is looked up in the union that filtering started
from, so the order of predicates does not matter.
-/
namespace SchemaAtlas

namespace Comparison

/-- The one type that a field is compared with; without any it is unknown. -/
def singleType : Comparison → Except QueryError FieldType
  | nothing => .ok .any
  | single type => .ok type
  | candidates _ => .error .severalTypes

/-- The alternatives that a field is compared with; an array stands for its possible elements. -/
def candidateTypes : Comparison → List FieldType
  | nothing => [.any]
  | candidates types => types
  | single (.array element) => element.members
  | single type => type.members

end Comparison

namespace Operator

/-- Which types of a field can satisfy the operator. -/
def admits (operator : Operator) (comparison : Comparison) :
    Except QueryError (FieldType → Bool) :=
  match operator with
  | hasField | notIn => .ok fun _ => true
  | notEqual => comparison.singleType.map fun single type => !type.isSubtype single
  | isIn => .ok fun type => comparison.candidateTypes.any fun candidate => type.overlaps candidate
  | arrayContains =>
    comparison.singleType.map fun single type =>
      type.arrayElements.any fun element => element.overlaps single
  | arrayContainsAny =>
    .ok fun type =>
      type.arrayElements.any fun element =>
        comparison.candidateTypes.any fun candidate => element.overlaps candidate
  | equal | lessThan | lessThanOrEqual | greaterThan | greaterThanOrEqual =>
    comparison.singleType.map fun single type => type.overlaps single

end Operator

namespace SchemaUnion

/-- Whether predicates say nothing about the union, which they leave as it is. -/
def isUnfilterable (u : SchemaUnion) : Bool := u.isGeneric || u.declaredSchemas.isEmpty

/-- The name of a field that some declared schema has. -/
def declaredField? (u : SchemaUnion) : Value → Option String
  | .text name => if u.declaredSchemas.any (·.hasField name) then some name else none
  | _ => none

/-- Whether a schema has the field at an admitted type. -/
def passes (admits : FieldType → Bool) (field : String) (schema : Schema) : Bool :=
  match schema.fieldAt? field with
  | some type => admits type
  | none => false

/-- The schemas that can satisfy a comparison of a field. -/
def filterBy (u : SchemaUnion) (field : Value) (operator : Operator) (comparison : Comparison) :
    Except QueryError SchemaUnion :=
  if u.isUnfilterable then .ok u
  else
    match u.declaredField? field with
    | none => .ok generic
    | some name =>
      match operator.admits comparison with
      | .error e => .error e
      | .ok admits => .ok (u.filtered (passes admits name))

/-- What filtering reports: the numbers of schemas, or that the field is unknown. -/
def filterLog (u : SchemaUnion) (field : Value) (operator : Operator) (comparison : Comparison) :
    List LogEntry :=
  if u.isUnfilterable then []
  else
    match u.declaredField? field with
    | none =>
      [⟨.debug, .filters,
        "Field " ++ field.shown ++ " is not declared by any variant; widening to generic."⟩]
    | some name =>
      match u.filterBy field operator comparison with
      | .error _ => []
      | .ok narrowed =>
        [⟨.debug, .filters,
          "Filter " ++ name ++ " " ++ operator.symbol ++ " kept " ++ toString narrowed.size ++
            " of " ++ toString u.size ++ " variants."⟩]

/-- The schemas that can satisfy a predicate. -/
def narrow (u : SchemaUnion) (p : Predicate) : Except QueryError SchemaUnion :=
  u.filterBy p.field p.operator p.comparison

def narrowLog (u : SchemaUnion) (p : Predicate) : List LogEntry :=
  u.filterLog p.field p.operator p.comparison

/-- The schemas that are left when the predicates are applied one after the other. -/
def narrowAll (u : SchemaUnion) (ps : List Predicate) : Except QueryError SchemaUnion :=
  ps.foldlM narrow u

/-- What applying predicates one after the other reports. -/
def narrowAllLog (u : SchemaUnion) : List Predicate → List LogEntry
  | [] => []
  | p :: ps =>
    u.narrowLog p ++
      match u.narrow p with
      | .error _ => []
      | .ok narrowed => narrowed.narrowAllLog ps

end SchemaUnion
end SchemaAtlas
