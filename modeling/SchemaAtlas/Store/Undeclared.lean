import SchemaAtlas.Store.Handle

/-!
# Undeclared children

The children that a store has at a path although the declaration does not cover them. A collection
with a generic document covers every name.
-/
namespace SchemaAtlas

namespace Frontier

/-- The names that the nodes of a frontier declare for their children. -/
def declaredNames (t : SchemaTree) : Frontier → List String
  | documents places =>
    places.flatMap fun place => (t.document place.node).collections.map (·.1)
  | collections places => places.flatMap fun place => (t.collection place.node).literals.map (·.1)

/-- Whether some node of a frontier covers every name. -/
def coversAll (t : SchemaTree) : Frontier → Bool
  | documents _ => false
  | collections places => places.any fun place => (t.collection place.node).generic?.isSome

end Frontier

namespace Store

/-- The live names that are not declared, in ascending order. -/
def undeclaredNames (live declared : List String) (coversAll : Bool) : List String :=
  if coversAll then [] else sortedDistinct (live.filter fun name => !declared.contains name)

/-- Undeclared names are worth a warning. -/
def undeclaredLog (names : List String) : List LogEntry :=
  if names.isEmpty then []
  else
    [⟨.warning, .store,
      "Found " ++ toString names.length ++ " undeclared children: " ++ Text.joinWith ", " names⟩]

/-- The live children below the frontier's nodes that it does not declare. -/
def undeclaredBelow (s : Store Handle) (frontier : Frontier) (segments : List Segment) :
    Action Handle (List String) := do
  let handle ← Action.requestPath s.client 0 none segments
  let live ← Action.requestChildren s.client handle
  let names := undeclaredNames live (frontier.declaredNames s.tree) (frontier.coversAll s.tree)
  Action.report (undeclaredLog names)
  return names

/-- The undeclared children at a path, or those of the root where no path is given. -/
def undeclaredChildren (s : Store Handle) (path : Value) : Action Handle (List String) := do
  if path.isVoid then s.undeclaredBelow SchemaTree.start []
  else
    let path ← Action.parsePath false path
    let frontier ← Action.nodesAt s.tree path
    if frontier.size = 0 then throw (.path (.undeclared path.text))
    else s.undeclaredBelow frontier path.segments

end Store
end SchemaAtlas
