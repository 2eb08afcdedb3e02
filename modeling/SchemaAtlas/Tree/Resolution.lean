import SchemaAtlas.Tree.Basic
import SchemaAtlas.Path
import SchemaAtlas.SchemaUnion
import SchemaAtlas.Diagnostics

/-!
# Resolution

What a path can stand for in a schema tree. Resolution goes down one step for each segment, from
documents to collections and from collections to documents in turn, so it ends on cyclic trees too. A
wildcard takes every declared child; a name takes the child declared under it, or the generic document
where there is one.
-/
namespace SchemaAtlas

/-- A node with the declared keys that lead to it. -/
structure Located (α : Type) where
  node : α
  keys : List String

namespace Located

def origin (l : Located α) : String := joinPath l.keys

end Located

/-- The nodes that the segments read so far can stand for. -/
inductive Frontier
  | documents (places : List (Located DocumentRef))
  | collections (places : List (Located Nat))

namespace Frontier

def size : Frontier → Nat
  | documents places => places.length
  | collections places => places.length

/-- The documents reached, if the frontier is one of documents. -/
def reachedDocuments : Frontier → List (Located DocumentRef)
  | documents places => places
  | collections _ => []

/-- The collections reached, if the frontier is one of collections. -/
def reachedCollections : Frontier → List (Located Nat)
  | documents _ => []
  | collections places => places

/-- The origins of the nodes with their kinds. -/
def origins : Frontier → List (String × PathKind)
  | documents places => places.map fun place => (place.origin, .document)
  | collections places => places.map fun place => (place.origin, .collection)

end Frontier

namespace SchemaTree

/-- The collections of a document that a segment can stand for. -/
def intoCollections (t : SchemaTree) (segment : Segment) (place : Located DocumentRef) :
    List (Located Nat) :=
  if segment.isWildcard then
    (t.document place.node).collections.map fun entry => ⟨entry.2, place.keys ++ [entry.1]⟩
  else
    match (t.document place.node).child? segment.text with
    | some id => [⟨id, place.keys ++ [segment.text]⟩]
    | none => []

/-- The documents of a located collection, under the collection's keys. -/
def memberDocuments (t : SchemaTree) (place : Located Nat) : List (Located DocumentRef) :=
  (t.collection place.node).labelled.map fun entry => ⟨entry.2, place.keys ++ [entry.1]⟩

/-- The documents of a collection that a segment can stand for. -/
def intoDocuments (t : SchemaTree) (segment : Segment) (place : Located Nat) :
    List (Located DocumentRef) :=
  if segment.isWildcard then t.memberDocuments place
  else
    match (t.collection place.node).resolve? segment.text with
    | some (label, document) => [⟨document, place.keys ++ [label]⟩]
    | none => []

/-- The nodes that one more segment leads to. -/
def advance (t : SchemaTree) (frontier : Frontier) (segment : Segment) : Frontier :=
  match frontier with
  | .documents places => .collections (places.flatMap (t.intoCollections segment))
  | .collections places => .documents (places.flatMap (t.intoDocuments segment))

def start : Frontier := .documents [⟨.root, []⟩]

/-- The nodes that a path can stand for. -/
def nodesAt (t : SchemaTree) (path : Path) : Frontier := path.segments.foldl t.advance start

def unionOfDocuments (t : SchemaTree) (places : List (Located DocumentRef)) : SchemaUnion :=
  .ofPairs (places.map fun place => ((t.document place.node).schema, place.origin))

/-- The schemas of the documents that a document path can stand for. -/
def documentUnion (t : SchemaTree) (path : Path) : SchemaUnion :=
  t.unionOfDocuments (t.nodesAt path).reachedDocuments

/-- The schemas of the documents in the collections that a collection path can stand for. -/
def collectionUnion (t : SchemaTree) (path : Path) : SchemaUnion :=
  t.unionOfDocuments ((t.nodesAt path).reachedCollections.flatMap t.memberDocuments)

/-- The schemas at a path of either kind. -/
def unionAt (t : SchemaTree) (path : Path) : SchemaUnion :=
  match path.kind with
  | .document => t.documentUnion path
  | .collection => t.collectionUnion path

/-- The schemas at a path that has to be a document path. -/
def resolve (t : SchemaTree) (path : Path) : Except PathError SchemaUnion :=
  (path.require .document).map t.documentUnion

/-- The schemas at a path that has to be a collection path. -/
def resolveCollection (t : SchemaTree) (path : Path) : Except PathError SchemaUnion :=
  (path.require .collection).map t.collectionUnion

/-- Whether some node is declared at a path. -/
def declares (t : SchemaTree) (path : Path) : Bool := (t.nodesAt path).size != 0

/-- The entries for the segments from `index` on, up to the first one that leads nowhere. -/
def resolutionLogFrom (t : SchemaTree) (path : Path) :
    (index : Nat) → Frontier → List Segment → List LogEntry
  | _, _, [] => []
  | index, frontier, segment :: rest =>
    let next := t.advance frontier segment
    let entry : LogEntry :=
      ⟨.debug, .paths,
        "Segment " ++ toString index ++ " (" ++ segment.text ++ ") of '" ++ path.text ++ "': " ++
          toString frontier.size ++ " -> " ++ toString next.size ++ " candidates"⟩
    if next.size = 0 then [entry] else entry :: t.resolutionLogFrom path (index + 1) next rest

/-- What resolving a path reports: for each segment the number of nodes before and behind it. -/
def resolutionLog (t : SchemaTree) (path : Path) : List LogEntry :=
  t.resolutionLogFrom path 0 start path.segments

end SchemaTree
end SchemaAtlas
