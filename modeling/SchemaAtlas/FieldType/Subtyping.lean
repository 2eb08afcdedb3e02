import SchemaAtlas.FieldType.Basic

/-!
# Subtyping and overlap

A type is a subtype of another if every value of the one is a value of the other; `any` counts as
related to everything in both directions. Two types overlap if an alternative of the one and an
alternative of the other are related in either direction.
-/
namespace SchemaAtlas.FieldType

mutual

def isSubtype : FieldType → FieldType → Bool
  | any, _ => true
  | _, any => true
  | union members, target => allSubtypes members target
  | candidate, union members => isSubtypeOfSome candidate members
  | literal a, literal b => a.same b
  | literal a, primitive kind => a.base = kind
  | primitive a, primitive b => a = b
  | array a, array b => isSubtype a b
  | map candidate, map target => target.isEmpty || (!candidate.isEmpty && hasFields candidate target)
  | _, _ => false
termination_by candidate target => (sizeOf candidate + sizeOf target, 0)

/-- Whether all the types are subtypes of the target. -/
def allSubtypes : List FieldType → FieldType → Bool
  | [], _ => true
  | member :: rest, target => isSubtype member target && allSubtypes rest target
termination_by members target => (sizeOf members + sizeOf target, 0)

/-- Whether the candidate is a subtype of one of the types. -/
def isSubtypeOfSome : FieldType → List FieldType → Bool
  | _, [] => false
  | candidate, member :: rest => isSubtype candidate member || isSubtypeOfSome candidate rest
termination_by candidate members => (sizeOf candidate + sizeOf members, 0)

/-- Whether the candidate fields hold every one of the target fields at a subtype. -/
def hasFields : List (String × FieldType) → List (String × FieldType) → Bool
  | _, [] => true
  | candidate, (name, type) :: rest => hasField candidate name type && hasFields candidate rest
termination_by candidate target => (sizeOf candidate + sizeOf target, 0)

/-- Whether the candidate fields hold a field of this name at a subtype. -/
def hasField : List (String × FieldType) → String → FieldType → Bool
  | [], _, _ => false
  | (other, candidate) :: rest, name, type =>
    if name = other then isSubtype candidate type else hasField rest name type
termination_by candidate _ type => (sizeOf candidate + sizeOf type, 0)

end

/-- Whether some alternatives of the two types are related in either direction. -/
def overlaps (left right : FieldType) : Bool :=
  left.members.any fun l => right.members.any fun r => isSubtype l r || isSubtype r l

end SchemaAtlas.FieldType
