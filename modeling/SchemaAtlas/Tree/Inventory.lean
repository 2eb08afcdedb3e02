import SchemaAtlas.Tree.Listing

/-!
# Inventories

A flat account of a schema tree: a row for every declared field of every document, and the totals.
-/
namespace SchemaAtlas

/-- A field of a document; the row of a document without fields names none. -/
structure InventoryRow where
  collectionPath : String
  documentKey : String
  field : Option (String × FieldType)

structure InventorySummary where
  collectionCount : Nat
  documentCount : Nat
  /-- The names of the collections, ascending and each once. -/
  groupNames : List String

namespace InventoryRow

def fieldName (row : InventoryRow) : Option String := row.field.map (·.1)

def typeText (row : InventoryRow) : Option String := row.field.map (·.2.render)

/-- The rows of one document. -/
def ofDocument (collectionPath documentKey : String) (d : Document) : List InventoryRow :=
  match d.schema.fields with
  | [] => [⟨collectionPath, documentKey, none⟩]
  | fields => fields.map fun field => ⟨collectionPath, documentKey, some field⟩

end InventoryRow

namespace SchemaTree

/-- The rows of all documents, collection by collection. -/
def inventoryRows (t : SchemaTree) : List InventoryRow :=
  t.reachableCollections.flatMap fun edge =>
    (t.documentsOf edge.collection).flatMap fun entry =>
      InventoryRow.ofDocument (joinPath edge.keys) entry.1 entry.2

/-- The totals over all collections. -/
def inventorySummary (t : SchemaTree) : InventorySummary where
  collectionCount := t.reachableCollections.length
  documentCount := (t.reachableCollections.flatMap fun edge => t.documentsOf edge.collection).length
  groupNames := sortedDistinct (t.reachableCollections.map (·.name))

end SchemaTree
end SchemaAtlas
