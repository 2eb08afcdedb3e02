import SchemaAtlas.Tree.Resolution

/-!
# Rounds through a tree

The collections of a tree in rounds, from the root outwards. A round meets every collection held by a
document of its frontier; the documents of those met for the first time are the next frontier. So each
collection is expanded once, along a shortest way to it, and the rounds come to an end.
-/
namespace SchemaAtlas

/-- A collection met in a document: the keys that lead to it, its own name among them, and its number. -/
structure Edge where
  keys : List String
  name : String
  collection : Nat

namespace SchemaTree

/-- The collections of the documents, in order. -/
def edgesOf (t : SchemaTree) (frontier : List (Located DocumentRef)) : List Edge :=
  frontier.flatMap fun place =>
    (t.document place.node).collections.map fun entry =>
      ⟨place.keys ++ [entry.1], entry.1, entry.2⟩

/-- The edges to collections that are met for the first time. -/
def freshEdges (expanded : List Nat) : List Edge → List Edge
  | [] => []
  | edge :: rest =>
    if expanded.contains edge.collection then freshEdges expanded rest
    else edge :: freshEdges (edge.collection :: expanded) rest

/-- The documents of the collection at the end of an edge. -/
def documentsBelow (t : SchemaTree) (edge : Edge) : List (Located DocumentRef) :=
  t.memberDocuments ⟨edge.collection, edge.keys⟩

/-- What some rounds have met. -/
structure Rounds where
  /-- Every collection in every document of the frontiers. -/
  met : List Edge
  /-- Those among them that were met for the first time. -/
  expanded : List Edge
  /-- The frontier that no round was left for. -/
  unvisited : List (Located DocumentRef)

/-- Rounds from a frontier, as many as are allowed and needed. -/
def rounds (t : SchemaTree) : (allowed : Nat) → (expanded : List Nat) →
    (frontier : List (Located DocumentRef)) → Rounds
  | 0, _, frontier => ⟨[], [], frontier⟩
  | _ + 1, _, [] => ⟨[], [], []⟩
  | allowed + 1, expanded, place :: places =>
    let met := t.edgesOf (place :: places)
    let fresh := freshEdges expanded met
    let rest := t.rounds allowed (fresh.map (·.collection) ++ expanded)
      (fresh.flatMap t.documentsBelow)
    ⟨met ++ rest.met, fresh ++ rest.expanded, rest.unvisited⟩

/-- At most so many rounds from the root. -/
def roundsFromRoot (t : SchemaTree) (allowed : Nat) : Rounds :=
  t.rounds allowed [] [⟨.root, []⟩]

end SchemaTree
end SchemaAtlas
