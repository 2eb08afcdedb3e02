import SchemaAtlas.Store.Client

/-!
# Lookups

Resolution, group search and narrowing as operations that report what they do. None of them needs a
client.
-/
namespace SchemaAtlas.Action

variable {Handle : Type}

def parsePath (allowWildcards : Bool) (path : Value) : Action Handle Path :=
  lift .path (Path.ofValue allowWildcards path)

/-- The nodes that a path can stand for. -/
def nodesAt (t : SchemaTree) (path : Path) : Action Handle Frontier := do
  report (t.resolutionLog path)
  return t.nodesAt path

/-- The schemas at a path of a required kind. -/
def unionOfKind (t : SchemaTree) (kind : PathKind) (path : Path) : Action Handle SchemaUnion := do
  let path ← lift .path (path.require kind)
  report (t.resolutionLog path)
  return t.unionAt path

/-- The schemas at a path of either kind. -/
def unionAt (t : SchemaTree) (path : Path) : Action Handle SchemaUnion := do
  report (t.resolutionLog path)
  return t.unionAt path

/-- The schemas of a collection group whose name and depth are checked in this order. -/
def collectionGroup (t : SchemaTree) (name : Value) (depth : Int) : Action Handle SchemaUnion := do
  let name ← lift .path (Path.groupNameOfValue name)
  let depth ← lift .group (SchemaTree.checkDepth depth)
  report (t.groupLog name depth)
  return t.groupUnion name depth

def narrow (u : SchemaUnion) (p : Predicate) : Action Handle SchemaUnion := do
  report (u.narrowLog p)
  lift .query (u.narrow p)

def narrowAll (u : SchemaUnion) (ps : List Predicate) : Action Handle SchemaUnion := do
  report (u.narrowAllLog ps)
  lift .query (u.narrowAll ps)

/-- Narrowing by a field, an operator given by its symbol, and a comparison. -/
def filterBy (u : SchemaUnion) (field symbol : Value) (comparison : Comparison) :
    Action Handle SchemaUnion := do
  let operator ← lift (fun e => .query (.operator e)) (Operator.ofValue symbol)
  narrow u ⟨field, operator, comparison⟩

def predicate (field symbol value : Value) : Action Handle Predicate :=
  lift .query (Predicate.ofSymbol field symbol value)

end SchemaAtlas.Action
