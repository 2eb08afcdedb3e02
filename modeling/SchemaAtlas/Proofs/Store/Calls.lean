import SchemaAtlas.Proofs.Path
import SchemaAtlas.Proofs.Store.Action
import SchemaAtlas.Store.Handle

/-!
# Calls on stores and handles

What each call gives where it does not fail, and what it asks of the client. A node is opened either
from the root, with one request for each segment, or from a handle, with one request. The calls for
collections and for documents differ only in the kind of path they accept and of handle they give.
-/
namespace SchemaAtlas

variable {Handle α β : Type}

def PathKind.node : PathKind → NodeKind
  | collection => .collection
  | document => .document

/--
The last handle and all requests, where a client is asked for one node after the other, each as a
child of the one before.
-/
def Client.walk (client : Client Handle) :
    (position : Nat) → List (Request Handle) → Option Handle → List String →
      Option Handle × List (Request Handle)
  | _, requests, parent, [] => (parent, requests)
  | position, requests, parent, name :: rest =>
    client.walk (position + 1) (requests ++ [.child parent (.atPosition position) (some name)])
      (some (client.child requests parent (.atPosition position) (some name))) rest

namespace Client

variable (client : Client Handle)

theorem walk_concat (position : Nat) (requests : List (Request Handle)) (parent : Option Handle)
    (names : List String) (last : String) :
    client.walk position requests parent (names ++ [last]) =
      (some (client.child (client.walk position requests parent names).2
          (client.walk position requests parent names).1 (.atPosition (position + names.length))
          (some last)),
        (client.walk position requests parent names).2 ++
          [.child (client.walk position requests parent names).1
            (.atPosition (position + names.length)) (some last)]) := by
  induction names generalizing position requests parent with
  | nil => rfl
  | cons name rest ih =>
    have hposition : position + 1 + rest.length = position + (rest.length + 1) := by omega
    rw [List.cons_append, walk, ih, hposition]
    rfl

theorem exists_walk_eq {names : List String} (hne : names ≠ []) (position : Nat)
    (requests : List (Request Handle)) (parent : Option Handle) :
    ∃ handle after, client.walk position requests parent names = (some handle, after) := by
  rcases List.eq_nil_or_concat names with rfl | ⟨init, last, rfl⟩
  · exact absurd rfl hne
  · exact ⟨_, _, List.concat_eq_append ▸ client.walk_concat position requests parent init last⟩

end Client

namespace Action

variable {before after : Journal Handle}

theorem returns_requestPath_iff {client : Client Handle} {position : Nat}
    {parent last : Option Handle} {segments : List Segment} :
    (requestPath client position parent segments).Returns before last after ↔
      client.walk position before.requests parent (segments.map (·.text)) = (last, after.requests) ∧
        after.entries = before.entries := by
  induction segments generalizing position parent before with
  | nil =>
    rw [requestPath, returns_pure_iff, List.map_nil, Client.walk, Prod.mk.injEq]
    constructor
    · rintro ⟨rfl, rfl⟩
      exact ⟨⟨rfl, rfl⟩, rfl⟩
    · rintro ⟨⟨rfl, hrequests⟩, hentries⟩
      cases after
      obtain rfl := hrequests
      obtain rfl := hentries
      exact ⟨rfl, rfl⟩
  | cons segment rest ih =>
    rw [requestPath, returns_bind_iff, List.map_cons, Client.walk]
    simp only [returns_requestChild_iff, ih]
    constructor
    · rintro ⟨handle, between, ⟨rfl, rfl⟩, h⟩
      exact h
    · exact fun h => ⟨_, _, ⟨rfl, rfl⟩, h⟩

theorem returns_nodesAt_iff {t : SchemaTree} {path : Path} {frontier : Frontier} :
    (nodesAt t path : Action Handle Frontier).Returns before frontier after ↔
      frontier = t.nodesAt path ∧
        after = ⟨before.requests, before.entries ++ t.resolutionLog path⟩ := by
  rw [nodesAt, returns_report_bind_iff, returns_pure_iff]

theorem returns_unionAt_iff {t : SchemaTree} {path : Path} {u : SchemaUnion} :
    (unionAt t path : Action Handle SchemaUnion).Returns before u after ↔
      u = t.unionAt path ∧ after = ⟨before.requests, before.entries ++ t.resolutionLog path⟩ := by
  rw [unionAt, returns_report_bind_iff, returns_pure_iff]

theorem returns_unionOfKind_iff {t : SchemaTree} {kind : PathKind} {path : Path} {u : SchemaUnion} :
    (unionOfKind t kind path : Action Handle SchemaUnion).Returns before u after ↔
      path.kind = kind ∧ u = t.unionAt path ∧
        after = ⟨before.requests, before.entries ++ t.resolutionLog path⟩ := by
  rw [unionOfKind, returns_bind_iff]
  simp only [returns_lift_iff, Path.require_eq_ok_iff]
  constructor
  · rintro ⟨q, between, ⟨⟨hkind, rfl⟩, rfl⟩, h⟩
    exact ⟨hkind, returns_unionAt_iff.1 h⟩
  · rintro ⟨hkind, h⟩
    exact ⟨path, before, ⟨⟨hkind, rfl⟩, rfl⟩, returns_unionAt_iff.2 h⟩

end Action

namespace Store

open SchemaAtlas.Action

variable {s : Store Handle} {before after : Journal Handle} {requests : List (Request Handle)}

theorem returns_requireDeclared_iff {t : SchemaTree} {path : Path} {u : Unit} :
    (requireDeclared t path : Action Handle Unit).Returns before u after ↔
      t.declares path = true ∧
        after = ⟨before.requests, before.entries ++ t.resolutionLog path⟩ := by
  rw [requireDeclared, returns_report_bind_iff]
  split
  · rename_i hdeclared
    rw [returns_pure_iff, and_iff_right hdeclared, and_iff_right rfl]
  · rename_i hdeclared
    exact ⟨fun h => absurd h not_returns_throw, fun h => absurd h.1 hdeclared⟩

/-- A declared path is opened with one request for each of its segments. -/
theorem obtains_openPath_iff {path : Path} {opened : Option Handle × SchemaUnion} :
    (s.openPath path).Obtains before opened requests ↔
      s.tree.declares path = true ∧
        s.client.walk 0 before.requests none path.texts = (opened.1, requests) ∧
        opened.2 = s.tree.unionAt path := by
  rw [openPath, obtains_bind_iff]
  simp only [returns_requireDeclared_iff, obtains_bind_iff, returns_unionAt_iff,
    returns_requestPath_iff, returns_report_iff, obtains_pure_iff]
  constructor
  · rintro ⟨-, _, ⟨hdeclared, rfl⟩, _, _, ⟨rfl, rfl⟩, _, _, ⟨hwalk, -⟩, -, _, rfl, rfl, rfl⟩
    exact ⟨hdeclared, hwalk, rfl⟩
  · rintro ⟨hdeclared, hwalk, hschemas⟩
    obtain ⟨handle, schemas⟩ := opened
    obtain rfl := hschemas
    exact ⟨(), _, ⟨hdeclared, rfl⟩, _, _, ⟨rfl, rfl⟩, handle, ⟨requests, _⟩, ⟨hwalk, rfl⟩, (), _,
      rfl, rfl, rfl⟩

/-- The node at the path that the segments are, made into a handle. -/
def openAs (s : Store Handle) (kind : PathKind) (finish : Handle → Path → SchemaUnion → α)
    (segments : List Value) : Action Handle α := do
  let path ← Action.lift .path (pathOfSegments segments)
  let path ← Action.lift .path (path.require kind)
  match ← s.openPath path with
  | (some handle, schemas) => return finish handle path schemas
  | (none, _) => throw (.path .noSegments)

/-- The node with a name below a node that was opened, made into a handle. -/
def openBelow (s : Store Handle) (parent : Handle) (texts : List String) (kind : PathKind)
    (finish : Handle → Path → SchemaUnion → α) (name : Value) : Action Handle α := do
  let path ← Action.lift .path (Path.ofSegments false (texts.map Value.text ++ [name]))
  requireDeclared s.tree path
  let schemas ← Action.unionOfKind s.tree kind path
  let handle ← Action.requestChild s.client (some parent) kind.node path.texts.getLast?
  return finish handle path schemas

variable {kind : PathKind} {finish : Handle → Path → SchemaUnion → α} {a : α}

theorem obtains_openAs_iff {segments : List Value} :
    (s.openAs kind finish segments).Obtains before a requests ↔
      ∃ path handle, pathOfSegments segments = .ok path ∧ path.kind = kind ∧
        s.tree.declares path = true ∧
        s.client.walk 0 before.requests none path.texts = (some handle, requests) ∧
        a = finish handle path (s.tree.unionAt path) := by
  simp only [openAs, obtains_bind_iff, returns_lift_iff, Path.require_eq_ok_iff]
  constructor
  · rintro ⟨_, _, ⟨hpath, rfl⟩, path, _, ⟨⟨hkind, rfl⟩, rfl⟩, ⟨handle, schemas⟩, middle, hopened, h⟩
    obtain ⟨hdeclared, hwalk, rfl⟩ := obtains_openPath_iff.1 ⟨middle.entries, hopened⟩
    cases handle with
    | none =>
      obtain ⟨entries, h⟩ := h
      exact absurd h not_returns_throw
    | some handle =>
      obtain ⟨rfl, rfl⟩ := obtains_pure_iff.1 h
      exact ⟨path, handle, hpath, hkind, hdeclared, hwalk, rfl⟩
  · rintro ⟨path, handle, hpath, hkind, hdeclared, hwalk, rfl⟩
    have hobtains : (s.openPath path).Obtains before (some handle, s.tree.unionAt path) requests :=
      obtains_openPath_iff.2 ⟨hdeclared, hwalk, rfl⟩
    obtain ⟨entries, hopened⟩ := hobtains
    exact ⟨path, before, ⟨hpath, rfl⟩, path, before, ⟨⟨hkind, rfl⟩, rfl⟩, _, _, hopened,
      obtains_pure_iff.2 ⟨rfl, rfl⟩⟩

theorem obtains_openBelow_iff {parent : Handle} {texts : List String} {name : Value} :
    (s.openBelow parent texts kind finish name).Obtains before a requests ↔
      ∃ last, name = .text last ∧ (∀ text ∈ texts ++ [last], IsName text) ∧
        s.tree.declares (.ofNames (texts ++ [last])) = true ∧
        (Path.ofNames (texts ++ [last])).kind = kind ∧
        a = finish (s.client.child before.requests (some parent) kind.node (some last))
          (.ofNames (texts ++ [last])) (s.tree.unionAt (.ofNames (texts ++ [last]))) ∧
        requests = before.requests ++ [.child (some parent) kind.node (some last)] := by
  simp only [openBelow, obtains_bind_iff, returns_lift_iff, returns_requireDeclared_iff,
    returns_unionOfKind_iff, returns_requestChild_iff, obtains_pure_iff,
    Path.ofSegments_concat_eq_ok_iff]
  constructor
  · rintro ⟨_, _, ⟨⟨last, rfl, hnames, rfl⟩, rfl⟩, -, _, ⟨hdeclared, rfl⟩, _, _, ⟨hkind, rfl, rfl⟩,
      _, _, ⟨rfl, rfl⟩, rfl, rfl⟩
    rw [Path.texts_ofNames, List.getLast?_concat]
    exact ⟨last, rfl, hnames, hdeclared, hkind, rfl, rfl⟩
  · rintro ⟨last, rfl, hnames, hdeclared, hkind, rfl, rfl⟩
    refine ⟨_, _, ⟨⟨last, rfl, hnames, rfl⟩, rfl⟩, (), _, ⟨hdeclared, rfl⟩, _, _, ⟨hkind, rfl, rfl⟩,
      _, _, ⟨rfl, rfl⟩, ?_⟩
    rw [Path.texts_ofNames, List.getLast?_concat]
    exact ⟨rfl, rfl⟩

theorem openAs_map (s : Store Handle) (kind : PathKind) (finish : Handle → Path → SchemaUnion → α)
    (f : α → β) (segments : List Value) :
    (do return f (← s.openAs kind finish segments)) =
      s.openAs kind (fun handle path schemas => f (finish handle path schemas)) segments := by
  simp only [openAs, bind_assoc]
  refine bind_congr fun path => bind_congr fun path => bind_congr fun opened => ?_
  obtain ⟨_ | handle, schemas⟩ := opened
  · rfl
  · exact pure_bind _ _

theorem openBelow_map (s : Store Handle) (parent : Handle) (texts : List String) (kind : PathKind)
    (finish : Handle → Path → SchemaUnion → α) (f : α → β) (name : Value) :
    (do return f (← s.openBelow parent texts kind finish name)) =
      s.openBelow parent texts kind (fun handle path schemas => f (finish handle path schemas))
        name := by
  simp only [openBelow, bind_assoc, pure_bind]

theorem collection_eq (s : Store Handle) :
    s.collection = s.openAs .collection (CollectionHandle.mk s) :=
  rfl

theorem document_eq (s : Store Handle) : s.document = s.openAs .document (DocumentHandle.mk s) :=
  rfl

end Store

theorem CollectionHandle.document_eq (c : CollectionHandle Handle) :
    c.document = c.store.openBelow c.handle c.path.texts .document (DocumentHandle.mk c.store) :=
  rfl

theorem DocumentHandle.collection_eq (d : DocumentHandle Handle) :
    d.collection =
      d.store.openBelow d.handle d.path.texts .collection (CollectionHandle.mk d.store) :=
  rfl

end SchemaAtlas
