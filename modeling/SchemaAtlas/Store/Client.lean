import SchemaAtlas.Fault

/-!
# Store clients

The boundary to the client of a document store. A client hands out handles to nodes and lists the
children of a node; what it answers may depend on everything it was asked before. Operations keep a
journal of the requests they make and of the entries they report, also when they fail.
-/
namespace SchemaAtlas

/-- The kinds of node that a client is asked for. -/
inductive NodeKind
  | collection | document | collectionGroup
  deriving DecidableEq

def NodeKind.name : NodeKind → String
  | collection => "collection"
  | document => "document"
  | collectionGroup => "collection_group"

/-- The kind of node at a position of a path, counted from zero. -/
def NodeKind.atPosition (position : Nat) : NodeKind :=
  if position % 2 = 0 then collection else document

/-- What a client is asked. Without a parent the root is meant, without a name a generated one. -/
inductive Request (Handle : Type)
  | child (parent : Option Handle) (kind : NodeKind) (name : Option String)
  | children (parent : Option Handle)

structure Client (Handle : Type) where
  /-- The handle of a child, after the given requests. -/
  child : List (Request Handle) → Option Handle → NodeKind → Option String → Handle
  /-- The names of the children, after the given requests. -/
  children : List (Request Handle) → Option Handle → List String

/-- Requests and reported entries, each in order. -/
structure Journal (Handle : Type) where
  requests : List (Request Handle)
  entries : List LogEntry

def Journal.blank : Journal Handle := ⟨[], []⟩

/-- An operation that may fail and keeps its journal in any case. -/
abbrev Action (Handle : Type) := ExceptT Fault (StateM (Journal Handle))

namespace Action

/-- Reports entries. -/
def report (entries : List LogEntry) : Action Handle Unit :=
  modify fun journal => ⟨journal.requests, journal.entries ++ entries⟩

/-- A result that needs no client. -/
def lift (wrap : ε → Fault) (result : Except ε α) : Action Handle α :=
  match result with
  | .ok a => pure a
  | .error e => throw (wrap e)

/-- Asks the client for a child. -/
def requestChild (client : Client Handle) (parent : Option Handle) (kind : NodeKind)
    (name : Option String) : Action Handle Handle := do
  let journal ← get
  set (⟨journal.requests ++ [.child parent kind name], journal.entries⟩ : Journal Handle)
  return client.child journal.requests parent kind name

/-- Asks the client for the names of the children. -/
def requestChildren (client : Client Handle) (parent : Option Handle) :
    Action Handle (List String) := do
  let journal ← get
  set (⟨journal.requests ++ [.children parent], journal.entries⟩ : Journal Handle)
  return client.children journal.requests parent

/-- Asks for the nodes of a path, each as a child of the one before. -/
def requestPath (client : Client Handle) :
    (position : Nat) → Option Handle → List Segment → Action Handle (Option Handle)
  | _, parent, [] => pure parent
  | position, parent, segment :: rest => do
    let handle ← requestChild client parent (.atPosition position) (some segment.text)
    requestPath client (position + 1) (some handle) rest

end Action
end SchemaAtlas
