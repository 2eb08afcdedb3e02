import SchemaAtlas.Store.Lookup

/-!
# Store handles

A store pairs a client with the tree declared for its data. Its handles carry, besides the client's own
handle, the path they were opened at and the schemas declared there. A path is looked up in the tree
before the client is asked for anything, so undeclared paths never reach it.
-/
namespace SchemaAtlas

structure Store (Handle : Type) where
  client : Client Handle
  tree : SchemaTree
  /-- The number of levels that a search for a collection group goes down. -/
  depth : Int

structure CollectionHandle (Handle : Type) where
  store : Store Handle
  handle : Handle
  path : Path
  schemas : SchemaUnion

structure DocumentHandle (Handle : Type) where
  store : Store Handle
  handle : Handle
  path : Path
  schemas : SchemaUnion

/-- A query and the clauses it was built from. -/
structure QueryHandle (Handle : Type) where
  handle : Handle
  schemas : SchemaUnion
  predicates : List Predicate
  selected : Option (List Value)

/-- A value read as one of the schemas at a path, without checking it. -/
structure CastValue where
  value : Value
  path : String
  schemas : SchemaUnion

namespace Store

/-- The path of one value, which may hold several segments, or of several segments. -/
def pathOfSegments : List Value → Except PathError Path
  | [path] => Path.ofValue false path
  | segments => Path.ofSegments false segments

/-- Fails unless some node is declared at the path. -/
def requireDeclared (t : SchemaTree) (path : Path) : Action Handle Unit := do
  Action.report (t.resolutionLog path)
  if t.declares path then pure () else throw (.path (.undeclared path.text))

/-- The schemas at a declared path and the client's handle to it. -/
def openPath (s : Store Handle) (path : Path) : Action Handle (Option Handle × SchemaUnion) := do
  requireDeclared s.tree path
  let schemas ← Action.unionAt s.tree path
  let handle ← Action.requestPath s.client 0 none path.segments
  Action.report
    [⟨.debug, .handles, "Opened " ++ path.kind.name ++ " handle for '" ++ path.text ++ "'"⟩]
  return (handle, schemas)

/-- The handle to a collection. -/
def collection (s : Store Handle) (segments : List Value) :
    Action Handle (CollectionHandle Handle) := do
  let path ← Action.lift .path (pathOfSegments segments)
  let path ← Action.lift .path (path.require .collection)
  match ← s.openPath path with
  | (some handle, schemas) => return ⟨s, handle, path, schemas⟩
  | (none, _) => throw (.path .noSegments)

/-- The handle to a document. -/
def document (s : Store Handle) (segments : List Value) :
    Action Handle (DocumentHandle Handle) := do
  let path ← Action.lift .path (pathOfSegments segments)
  let path ← Action.lift .path (path.require .document)
  match ← s.openPath path with
  | (some handle, schemas) => return ⟨s, handle, path, schemas⟩
  | (none, _) => throw (.path .noSegments)

/-- A query over all collections of one name. -/
def collectionGroup (s : Store Handle) (name : Value) : Action Handle (QueryHandle Handle) := do
  let text ← Action.lift .path (Path.groupNameOfValue name)
  let schemas ← Action.collectionGroup s.tree name s.depth
  let handle ← Action.requestChild s.client none .collectionGroup (some text)
  return ⟨handle, schemas, [], none⟩

/-- Pairs a value with the schemas at a path. -/
def cast (s : Store Handle) (value path : Value) : Action Handle CastValue := do
  let path ← Action.parsePath true path
  let schemas ← Action.unionAt s.tree path
  return ⟨value, path.text, schemas⟩

end Store

namespace CollectionHandle

/-- The handle to a document with a name. -/
def document (c : CollectionHandle Handle) (name : Value) :
    Action Handle (DocumentHandle Handle) := do
  let path ← Action.lift .path (Path.ofSegments false (c.path.texts.map Value.text ++ [name]))
  Store.requireDeclared c.store.tree path
  let schemas ← Action.unionOfKind c.store.tree .document path
  let handle ← Action.requestChild c.store.client (some c.handle) .document
    (path.texts.getLast?)
  return ⟨c.store, handle, path, schemas⟩

/-- The generic documents of the collections that a frontier has reached. -/
def genericDocuments (t : SchemaTree) (frontier : Frontier) : List (Located DocumentRef) :=
  frontier.reachedCollections.filterMap fun place =>
    (t.collection place.node).generic?.map fun document =>
      ⟨document, place.keys ++ [genericLabel]⟩

/-- The handle to a document whose name the client generates; only generic documents can be meant. -/
def generatedDocument (c : CollectionHandle Handle) : Action Handle (DocumentHandle Handle) := do
  let frontier ← Action.nodesAt c.store.tree c.path
  match genericDocuments c.store.tree frontier with
  | [] => throw (.path (.noGenericDocument c.path.text))
  | places =>
    let handle ← Action.requestChild c.store.client (some c.handle) .document none
    let path ← Action.lift .path
      (Path.ofSegments false (c.path.texts.map Value.text ++ [.text genericLabel]))
    return ⟨c.store, handle, path, c.store.tree.unionOfDocuments places⟩

/-- The handle to the document that a value names; no value stands for a generated name. -/
def documentOfValue (c : CollectionHandle Handle) : Value → Action Handle (DocumentHandle Handle)
  | .null => c.generatedDocument
  | name => c.document name

/-- The query for all documents of the collection. -/
def query (c : CollectionHandle Handle) : QueryHandle Handle := ⟨c.handle, c.schemas, [], none⟩

end CollectionHandle

namespace DocumentHandle

/-- The handle to a collection of the document. -/
def collection (d : DocumentHandle Handle) (name : Value) :
    Action Handle (CollectionHandle Handle) := do
  let path ← Action.lift .path (Path.ofSegments false (d.path.texts.map Value.text ++ [name]))
  Store.requireDeclared d.store.tree path
  let schemas ← Action.unionOfKind d.store.tree .collection path
  let handle ← Action.requestChild d.store.client (some d.handle) .collection
    (path.texts.getLast?)
  return ⟨d.store, handle, path, schemas⟩

end DocumentHandle

namespace QueryHandle

/-- The query with one more predicate. -/
def filterBy (q : QueryHandle Handle) (field symbol value : Value) :
    Action Handle (QueryHandle Handle) := do
  let p ← Action.predicate field symbol value
  let schemas ← Action.narrow q.schemas p
  return ⟨q.handle, schemas, q.predicates ++ [p], q.selected⟩

/-- The query for selected fields only. -/
def select (q : QueryHandle Handle) (fields : List Value) : Action Handle (QueryHandle Handle) := do
  let schemas ← Action.lift .query (q.schemas.project (.sequence .tuple fields))
  return ⟨q.handle, schemas, q.predicates, some fields⟩

end QueryHandle
end SchemaAtlas
