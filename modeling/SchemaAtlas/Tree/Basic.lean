import SchemaAtlas.Schema

/-!
# Schema trees

The declared shape of a whole document store: collections hold documents, documents hold collections.
Both are numbered, and what a collection or a document holds is a number, so that a declaration may
refer back to an ancestor. A number that is not in the tree stands for an empty collection or
document.
-/
namespace SchemaAtlas

/--
A document of the tree: the root, one declared with nothing in it under a key of a collection, or a
numbered one.
-/
inductive DocumentRef
  | root
  | blank (collection : Nat) (key : String)
  | declared (id : Nat)
  deriving DecidableEq

/--
The declared documents of a collection by their keys. The document under the generic key, if there is
one, is the shape of every document that has no entry of its own.
-/
structure Collection where
  entries : List (String × DocumentRef)
  genericKey : Option String

/-- A declared document: its fields, and the numbers of its collections by their names. -/
structure Document where
  schema : Schema
  collections : List (String × Nat)

structure SchemaTree where
  collections : List (Nat × Collection)
  documents : List (Nat × Document)
  root : Document

/-- The label of the generic document in the position of a node. -/
def genericLabel : String := "\x7bid\x7d"

namespace Document

def empty : Document := ⟨Schema.empty, []⟩

def child? (d : Document) (name : String) : Option Nat := d.collections.lookup name

end Document

namespace Collection

def empty : Collection := ⟨[], none⟩

def isGenericKey (c : Collection) (key : String) : Bool := c.genericKey = some key

/-- The documents with a name of their own, in declared order. -/
def literals (c : Collection) : List (String × DocumentRef) :=
  c.entries.filter fun entry => !c.isGenericKey entry.1

/-- The shape of all documents without an entry of their own. -/
def generic? (c : Collection) : Option DocumentRef :=
  c.genericKey.bind fun key => c.entries.lookup key

/-- The document with a name of its own. -/
def literal? (c : Collection) (name : String) : Option DocumentRef :=
  if c.isGenericKey name then none else c.entries.lookup name

/-- The document that a name stands for, with the label under which it is declared. -/
def resolve? (c : Collection) (name : String) : Option (String × DocumentRef) :=
  match c.literal? name with
  | some document => some (name, document)
  | none => c.generic?.map ((genericLabel, ·))

/-- All declared documents with their labels, the generic one last. -/
def labelled (c : Collection) : List (String × DocumentRef) :=
  c.literals ++ (c.generic?.map ((genericLabel, ·))).toList

end Collection

namespace SchemaTree

def collection (t : SchemaTree) (id : Nat) : Collection :=
  (t.collections.lookup id).getD Collection.empty

def document (t : SchemaTree) : DocumentRef → Document
  | .root => t.root
  | .blank _ _ => Document.empty
  | .declared id => (t.documents.lookup id).getD Document.empty

/-- The labelled documents of a collection. -/
def documentsOf (t : SchemaTree) (id : Nat) : List (String × Document) :=
  (t.collection id).labelled.map fun entry => (entry.1, t.document entry.2)

end SchemaTree
end SchemaAtlas
