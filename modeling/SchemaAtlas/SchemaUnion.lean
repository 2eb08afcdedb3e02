import SchemaAtlas.Schema

/-!
# Schema unions

The schemas that a document may have, each with the places at which it is declared. Schemas that are
the same are one variant, and of these the one met first is kept. A union that was filtered remembers
the schemas it started from, which decide whether a field is declared at all. The generic union
stands for documents of any shape.
-/
namespace SchemaAtlas

/-- A possible schema, and its origins in ascending order without repetition. -/
structure Variant where
  schema : Schema
  origins : List String

inductive SchemaUnion
  | generic
  /-- The possible schemas, and those before any filtering if there was some. -/
  | candidates (variants : List Variant) (filteredFrom : Option (List Schema))

namespace SchemaUnion

def empty : SchemaUnion := candidates [] none

def isGeneric : SchemaUnion → Bool
  | generic => true
  | candidates _ _ => false

def variants : SchemaUnion → List Variant
  | generic => []
  | candidates variants _ => variants

def schemas (u : SchemaUnion) : List Schema := u.variants.map (·.schema)

/-- The schemas before any filtering. -/
def declaredSchemas : SchemaUnion → List Schema
  | generic => []
  | candidates variants none => variants.map (·.schema)
  | candidates _ (some declared) => declared

def size (u : SchemaUnion) : Nat := u.variants.length

def isEmpty (u : SchemaUnion) : Bool := !u.isGeneric && u.variants.isEmpty

def addOrigins (origins more : List String) : List String :=
  more.foldl (fun origins origin => insertText origin origins) origins

/-- Adds a schema with its origins, to the variant of the same schema if there is one. -/
def addVariant (schema : Schema) (origins : List String) : List Variant → List Variant
  | [] => [⟨schema, addOrigins [] origins⟩]
  | v :: vs =>
    if v.schema.same schema then ⟨v.schema, addOrigins v.origins origins⟩ :: vs
    else v :: addVariant schema origins vs

/-- The variants of the given schemas and origins together. -/
def collect (variants : List Variant) (more : List Variant) : List Variant :=
  more.foldl (fun variants v => addVariant v.schema v.origins variants) variants

/-- The union of schemas with one origin each. -/
def ofPairs (pairs : List (Schema × String)) : SchemaUnion :=
  candidates (collect [] (pairs.map fun pair => ⟨pair.1, [pair.2]⟩)) none

/-- The variants in the order of their rendered fields. -/
def ordered (u : SchemaUnion) : List Variant :=
  sortBy (fun a b => a.schema.le b.schema) u.variants

def contains (u : SchemaUnion) (schema : Schema) : Bool := u.schemas.any (·.same schema)

/-- Whether two unions have the same schemas; origins do not count. -/
def same (u v : SchemaUnion) : Bool :=
  u.isGeneric == v.isGeneric && u.schemas.all v.contains && v.schemas.all u.contains

/-- Everything that is possible in one of the two unions. -/
def union : SchemaUnion → SchemaUnion → SchemaUnion
  | generic, _ => generic
  | _, generic => generic
  | candidates vs none, candidates ws none => candidates (collect vs ws) none
  | candidates vs d, candidates ws e =>
    candidates (collect vs ws) (some (distinctBy Schema.same
      ((candidates vs d).declaredSchemas ++ (candidates ws e).declaredSchemas)))

/-- The variants whose schemas pass a test. -/
def filtered (keep : Schema → Bool) : SchemaUnion → SchemaUnion
  | generic => generic
  | candidates variants filteredFrom =>
    candidates (variants.filter fun v => keep v.schema)
      (some (candidates variants filteredFrom).declaredSchemas)

/-- Every schema replaced by another; variants that become the same are one. -/
def mapped (change : Schema → Schema) : SchemaUnion → SchemaUnion
  | generic => generic
  | candidates variants filteredFrom =>
    candidates (collect [] ((candidates variants filteredFrom).ordered.map fun v =>
      ⟨change v.schema, v.origins⟩)) none

/-- The names of the fields that some variant has, in ascending order. -/
def fieldNames (u : SchemaUnion) : List String :=
  sortedDistinct (u.schemas.flatMap (·.fieldNames))

/-- The names of the fields that some schema has before any filtering, in ascending order. -/
def declaredFieldNames (u : SchemaUnion) : List String :=
  sortedDistinct (u.declaredSchemas.flatMap (·.fieldNames))

end SchemaUnion
end SchemaAtlas
