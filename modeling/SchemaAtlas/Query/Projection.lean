import SchemaAtlas.Query.Filter

/-!
# Projections

Restricting the schemas of a union to selected fields. Selecting a field that no declared schema has
says nothing about the result, which is the generic union.
-/
namespace SchemaAtlas

/-- The names in a value that is a collection of possible names; a text is one of its characters. -/
def Value.selection? : Value → Option (List Value)
  | .sequence _ items => if allHashable items then some items else none
  | .set members => some members
  | .mapping entries => some (entries.map (·.1))
  | .text s => some (s.toList.map fun c => .text c.toString)
  | .bytes data _ => some (data.map fun b : Nat => .integer b)
  | _ => none

namespace SchemaUnion

/-- The selected names, if every one of them is a declared field. -/
def declaredSelection? (u : SchemaUnion) : List Value → Option (List String)
  | [] => some []
  | .text name :: rest =>
    if u.declaredFieldNames.contains name then (u.declaredSelection? rest).map (name :: ·) else none
  | _ :: _ => none

/-- The schemas restricted to selected fields. -/
def select (u : SchemaUnion) (fields : List Value) : SchemaUnion :=
  if u.isUnfilterable then u
  else
    match u.declaredSelection? fields with
    | some names => u.mapped (·.restrictedTo names)
    | none => generic

/-- The schemas restricted to the fields that a value selects. -/
def project (u : SchemaUnion) (fields : Value) : Except QueryError SchemaUnion :=
  if u.isUnfilterable then .ok u
  else
    match fields.selection? with
    | some names => .ok (u.select names)
    | none => .error .selection

end SchemaUnion
end SchemaAtlas
