import SchemaAtlas.Tree.Traversal

/-!
# Collection groups

All collections of one name, wherever they are in the tree. The search goes breadth first and down to
a given number of levels of collections, so it ends on trees that refer to themselves.
-/
namespace SchemaAtlas

/-- The number of levels that are searched where nothing else is asked for. -/
def defaultDepth : Int := 64

/-- Why a collection group cannot be searched for. -/
inductive GroupError
  | name (error : PathError)
  | depth
  deriving DecidableEq

def GroupError.message : GroupError → String
  | name error => error.message
  | depth => "max_depth must be greater than zero."

namespace SchemaTree

/-- The documents of the collections called `name` within the given number of levels. -/
def groupDocuments (t : SchemaTree) (name : String) (depth : Nat) :
    List (Located DocumentRef) :=
  ((t.roundsFromRoot depth).met.filter fun edge => edge.name = name).flatMap t.documentsBelow

/-- The schemas of the collections called `name` within the given number of levels. -/
def groupUnion (t : SchemaTree) (name : String) (depth : Nat) : SchemaUnion :=
  t.unionOfDocuments (t.groupDocuments name depth)

/-- The depth of a search, which is at least one level. -/
def checkDepth (depth : Int) : Except GroupError Nat :=
  if depth ≤ 0 then .error .depth else .ok depth.toNat

/-- The schemas of a collection group; the name is checked before the depth. -/
def collectionGroup (t : SchemaTree) (name : Except PathError String) (depth : Int) :
    Except GroupError SchemaUnion := do
  let name ← name.mapError .name
  let depth ← checkDepth depth
  return t.groupUnion name depth

/-- What a search reports: documents it had no level left for, and what it found. -/
def groupLog (t : SchemaTree) (name : String) (depth : Nat) : List LogEntry :=
  let rounds := t.roundsFromRoot depth
  let stopped : List LogEntry :=
    if rounds.unvisited.isEmpty then []
    else
      [⟨.warning, .groups,
        "Collection group '" ++ name ++ "' search stopped at depth " ++ toString depth ++ " with " ++
          toString rounds.unvisited.length ++ " documents unvisited."⟩]
  stopped ++
    [⟨.debug, .groups,
      "Collection group '" ++ name ++ "' matched " ++
        toString (t.groupDocuments name depth).length ++ " declared documents across " ++
        toString rounds.expanded.length ++ " collections."⟩]

end SchemaTree
end SchemaAtlas
