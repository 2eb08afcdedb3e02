import SchemaAtlas.Proofs.Store.Calls
import SchemaAtlas.Proofs.Tree.Literal

/-!
# Handles of a store

Handles of both classes are opened from the root or below another handle, and the client may
generate the name of a document. Whatever calls a handle comes from, its path is one that the tree
declares, without wildcards and of the handle's class, and its schemas are the ones at that path,
with one exception. The path of a document with a generated name ends in the label of generic
documents. Where the collection also declares a document of that very name, the path leads to the
latter, while the handle has the schemas of the former.
-/
namespace SchemaAtlas

variable {Handle : Type}

/-- A handle of either class. -/
inductive NodeHandle (Handle : Type)
  | collection (c : CollectionHandle Handle)
  | document (d : DocumentHandle Handle)

namespace NodeHandle

def ofKind : PathKind → Store Handle → Handle → Path → SchemaUnion → NodeHandle Handle
  | .collection, s, handle, path, schemas => collection ⟨s, handle, path, schemas⟩
  | .document, s, handle, path, schemas => document ⟨s, handle, path, schemas⟩

def kind : NodeHandle Handle → PathKind
  | collection _ => .collection
  | document _ => .document

def store : NodeHandle Handle → Store Handle
  | collection c => c.store
  | document d => d.store

def handle : NodeHandle Handle → Handle
  | collection c => c.handle
  | document d => d.handle

def path : NodeHandle Handle → Path
  | collection c => c.path
  | document d => d.path

def schemas : NodeHandle Handle → SchemaUnion
  | collection c => c.schemas
  | document d => d.schemas

section

variable (kind : PathKind) (s : Store Handle) (handle : Handle) (path : Path)
  (schemas : SchemaUnion)

@[simp] theorem kind_ofKind : (ofKind kind s handle path schemas).kind = kind := by
  cases kind <;> rfl

@[simp] theorem store_ofKind : (ofKind kind s handle path schemas).store = s := by
  cases kind <;> rfl

@[simp] theorem handle_ofKind : (ofKind kind s handle path schemas).handle = handle := by
  cases kind <;> rfl

@[simp] theorem path_ofKind : (ofKind kind s handle path schemas).path = path := by
  cases kind <;> rfl

@[simp] theorem schemas_ofKind : (ofKind kind s handle path schemas).schemas = schemas := by
  cases kind <;> rfl

end

/-- The handle to the child with a name. -/
def child : NodeHandle Handle → Value → Action Handle (NodeHandle Handle)
  | collection c, name => do return document (← c.document name)
  | document d, name => do return collection (← d.collection name)

end NodeHandle

/-- The handle of a class to the node at the path that the segments are. -/
def Store.openNode (s : Store Handle) : PathKind → List Value → Action Handle (NodeHandle Handle)
  | .collection, segments => do return .collection (← s.collection segments)
  | .document, segments => do return .document (← s.document segments)

/-! ### What the calls give -/

theorem Store.openNode_eq (s : Store Handle) (kind : PathKind) :
    s.openNode kind = s.openAs kind (.ofKind kind s) := by
  funext segments
  cases kind with
  | collection =>
    exact s.openAs_map .collection (CollectionHandle.mk s) NodeHandle.collection segments
  | document => exact s.openAs_map .document (DocumentHandle.mk s) NodeHandle.document segments

theorem NodeHandle.child_eq (n : NodeHandle Handle) :
    n.child =
      n.store.openBelow n.handle n.path.texts n.kind.other (.ofKind n.kind.other n.store) := by
  funext name
  cases n with
  | collection c =>
    exact c.store.openBelow_map c.handle c.path.texts .document (DocumentHandle.mk c.store) document
      name
  | document d =>
    exact d.store.openBelow_map d.handle d.path.texts .collection (CollectionHandle.mk d.store)
      collection name

variable {s : Store Handle} {before after : Journal Handle} {requests : List (Request Handle)}
  {n below : NodeHandle Handle}

theorem Store.obtains_openNode_iff {kind : PathKind} {segments : List Value} :
    (s.openNode kind segments).Obtains before n requests ↔
      ∃ path handle, pathOfSegments segments = .ok path ∧ path.kind = kind ∧
        s.tree.declares path = true ∧
        s.client.walk 0 before.requests none path.texts = (some handle, requests) ∧
        n = .ofKind kind s handle path (s.tree.unionAt path) := by
  rw [openNode_eq, obtains_openAs_iff]

theorem NodeHandle.obtains_child_iff {name : Value} :
    (n.child name).Obtains before below requests ↔
      ∃ last, name = .text last ∧ (∀ text ∈ n.path.texts ++ [last], IsName text) ∧
        n.store.tree.declares (.ofNames (n.path.texts ++ [last])) = true ∧
        (Path.ofNames (n.path.texts ++ [last])).kind = n.kind.other ∧
        below = .ofKind n.kind.other n.store
          (n.store.client.child before.requests (some n.handle) n.kind.other.node (some last))
          (.ofNames (n.path.texts ++ [last]))
          (n.store.tree.unionAt (.ofNames (n.path.texts ++ [last]))) ∧
        requests = before.requests ++ [.child (some n.handle) n.kind.other.node (some last)] := by
  rw [child_eq, Store.obtains_openBelow_iff]

theorem CollectionHandle.obtains_generatedDocument_iff {c : CollectionHandle Handle}
    {d : DocumentHandle Handle} :
    c.generatedDocument.Obtains before d requests ↔
      genericDocuments c.store.tree (c.store.tree.nodesAt c.path) ≠ [] ∧
        (∀ text ∈ c.path.texts ++ [genericLabel], IsName text) ∧
        d = ⟨c.store, c.store.client.child before.requests (some c.handle) .document none,
          .ofNames (c.path.texts ++ [genericLabel]), c.store.tree.unionOfDocuments
            (genericDocuments c.store.tree (c.store.tree.nodesAt c.path))⟩ ∧
        requests = before.requests ++ [.child (some c.handle) .document none] := by
  rw [generatedDocument, Action.obtains_bind_iff]
  simp only [Action.returns_nodesAt_iff]
  constructor
  · rintro ⟨_, _, ⟨rfl, rfl⟩, h⟩
    split at h
    · obtain ⟨entries, h⟩ := h
      exact absurd h Action.not_returns_throw
    · rename_i hplaces
      obtain ⟨_, _, hchild, h⟩ := Action.obtains_bind_iff.1 h
      obtain ⟨rfl, rfl⟩ := Action.returns_requestChild_iff.1 hchild
      obtain ⟨_, _, hlabel, h⟩ := Action.obtains_bind_iff.1 h
      obtain ⟨hpath, rfl⟩ := Action.returns_lift_iff.1 hlabel
      obtain ⟨last, hlast, hnames, rfl⟩ := Path.ofSegments_concat_eq_ok_iff.1 hpath
      obtain rfl := Value.text.inj hlast
      obtain ⟨rfl, rfl⟩ := Action.obtains_pure_iff.1 h
      exact ⟨hplaces, hnames, rfl, rfl⟩
  · rintro ⟨hplaces, hnames, rfl, rfl⟩
    refine ⟨_, _, ⟨rfl, rfl⟩, ?_⟩
    split
    · rename_i hnil
      exact absurd hnil hplaces
    · have hpath := Path.ofSegments_concat_eq_ok_iff.2 ⟨genericLabel, rfl, hnames, rfl⟩
      refine Action.obtains_bind_iff.2 ⟨_, _, Action.returns_requestChild_iff.2 ⟨rfl, rfl⟩, ?_⟩
      refine Action.obtains_bind_iff.2 ⟨_, _, Action.returns_lift_iff.2 ⟨hpath, rfl⟩, ?_⟩
      exact Action.obtains_pure_iff.2 ⟨rfl, rfl⟩

/-! ### Sequences of calls -/

/-- How a node got its name: from a call, or from the client for the collection at a path. -/
inductive Naming
  | given
  | generated (collection : Path)

/-- The handles that a store gives in calls with values of a kind. -/
inductive Store.Gives (s : Store Handle) (Given : Value → Prop) : Naming → NodeHandle Handle → Prop
  | opened {kind segments n before after} (hsegments : ∀ v ∈ segments, Given v)
      (h : (s.openNode kind segments).Returns before n after) : Gives s Given .given n
  | child {naming n name below before after} (hn : Gives s Given naming n) (hname : Given name)
      (h : (n.child name).Returns before below after) : Gives s Given .given below
  | generated {naming c d before after} (hc : Gives s Given naming (.collection c))
      (h : c.generatedDocument.Returns before d after) :
      Gives s Given (.generated c.path) (.document d)

/-- Where a handle of a store stands. -/
structure NodeHandle.Placed (s : Store Handle) (n : NodeHandle Handle) : Prop where
  store_eq : n.store = s
  path_eq : n.path = .ofNames n.path.texts
  declared : s.tree.declares n.path = true
  kind_eq : n.path.kind = n.kind

theorem Store.eq_path_or_exists_names {segments : List Value} {path : Path}
    (h : pathOfSegments segments = .ok path) :
    segments = [.path path] ∨
      ∃ names, names ≠ [] ∧ (∀ name ∈ names, IsName name) ∧ path = .ofNames names := by
  unfold pathOfSegments at h
  split at h
  · rename_i v
    exact (Path.eq_path_or_exists_names h).imp_left (congrArg (fun w => [w]))
  · exact .inr (Path.exists_names_of_ofSegments h)

theorem NodeHandle.placed_openNode {kind : PathKind} {segments : List Value}
    (hsegments : ∀ v ∈ segments, v.isText = true)
    (h : (s.openNode kind segments).Returns before n after) : n.Placed s := by
  obtain ⟨path, handle, hpath, hkind, hdeclared, -, rfl⟩ :=
    Store.obtains_openNode_iff.1 ⟨after.entries, h⟩
  rcases Store.eq_path_or_exists_names hpath with rfl | ⟨names, -, -, hnames⟩
  · cases hsegments _ List.mem_cons_self
  · constructor
    · exact store_ofKind ..
    · rw [path_ofKind]
      exact Path.eq_ofNames_texts hnames
    · rwa [path_ofKind]
    · rw [path_ofKind, kind_ofKind, hkind]

theorem NodeHandle.Placed.child {name : Value} (hn : n.Placed s)
    (h : (n.child name).Returns before below after) : below.Placed s := by
  obtain ⟨last, -, -, hdeclared, hkind, rfl, -⟩ := obtains_child_iff.1 ⟨after.entries, h⟩
  obtain rfl := hn.store_eq
  constructor
  · exact store_ofKind ..
  · rw [path_ofKind, Path.texts_ofNames]
  · rwa [path_ofKind]
  · rw [path_ofKind, kind_ofKind, hkind]

/-! ### Generated names -/

namespace SchemaTree

variable {t : SchemaTree} {place : Located Nat} {document : DocumentRef} {names : List String}

/-- Where names are generated, one collection is reached, and it has a generic document. -/
theorem exists_generic
    (h : CollectionHandle.genericDocuments t (t.nodesAt (.ofNames names)) ≠ []) :
    ∃ place document, t.nodesAt (.ofNames names) = .collections [place] ∧
      (t.collection place.node).generic? = some document := by
  have hsize := t.size_nodesAt_ofNames_le_one names
  cases hfrontier : t.nodesAt (.ofNames names) with
  | documents places =>
    rw [hfrontier] at h
    exact absurd rfl h
  | collections places =>
    rw [hfrontier] at h hsize
    obtain ⟨located, hlocated⟩ := List.exists_mem_of_ne_nil _ h
    obtain ⟨place, hplace, hgeneric⟩ := List.mem_filterMap.1 hlocated
    obtain ⟨document, hgeneric, -⟩ := Option.map_eq_some_iff.1 hgeneric
    obtain ⟨only, rfl⟩ := List.length_eq_one_iff.1
      (Nat.le_antisymm hsize (List.length_pos_of_mem hplace))
    obtain rfl := List.mem_singleton.1 hplace
    exact ⟨place, document, rfl, hgeneric⟩

theorem genericDocuments_singleton (h : (t.collection place.node).generic? = some document) :
    CollectionHandle.genericDocuments t (.collections [place]) =
      [⟨document, place.keys ++ [genericLabel]⟩] := by
  rw [CollectionHandle.genericDocuments, Frontier.reachedCollections, List.filterMap_cons, h]
  rfl

/-- Where there is a generic document, every name leads to some document. -/
theorem intoDocuments_ne_nil {name : String}
    (h : (t.collection place.node).generic? = some document) :
    t.intoDocuments ⟨name, .literal⟩ place ≠ [] := by
  rw [intoDocuments, if_neg (by exact Bool.false_ne_true), Collection.resolve?, h]
  cases (t.collection place.node).literal? name with
  | none => exact List.cons_ne_nil _ _
  | some literal => exact List.cons_ne_nil _ _

/-- The label leads to the generic document, unless it is the name of a document. -/
theorem intoDocuments_genericLabel (h : (t.collection place.node).generic? = some document)
    (hlabel : (t.collection place.node).literal? genericLabel = none) :
    t.intoDocuments ⟨genericLabel, .literal⟩ place =
      [⟨document, place.keys ++ [genericLabel]⟩] := by
  rw [intoDocuments, if_neg (by exact Bool.false_ne_true), Collection.resolve?, hlabel, h]
  rfl

theorem nodesAt_concat_of_collection {name : String}
    (h : t.nodesAt (.ofNames names) = .collections [place]) :
    t.nodesAt (.ofNames (names ++ [name])) =
      .documents (t.intoDocuments ⟨name, .literal⟩ place) := by
  rw [nodesAt_ofNames_concat, h, advance, List.flatMap_singleton]

theorem declares_concat_of_generic {name : String}
    (h : CollectionHandle.genericDocuments t (t.nodesAt (.ofNames names)) ≠ []) :
    t.declares (.ofNames (names ++ [name])) = true := by
  obtain ⟨place, document, hreached, hgeneric⟩ := exists_generic h
  rw [declares_iff, nodesAt_concat_of_collection hreached]
  exact mt List.length_eq_zero_iff.1 (intoDocuments_ne_nil hgeneric)

/-- The schemas at a path that has to be of a kind. -/
def resolveAs (t : SchemaTree) : PathKind → Path → Except PathError SchemaUnion
  | .collection => t.resolveCollection
  | .document => t.resolve

theorem resolveAs_of_kind {kind : PathKind} {path : Path} (h : path.kind = kind) :
    t.resolveAs kind path = .ok (t.unionAt path) := by
  have hrequire := Path.require_eq_ok_iff.2 ⟨h, rfl⟩
  rw [unionAt, h]
  cases kind with
  | collection => exact congrArg (Except.map t.collectionUnion) hrequire
  | document => exact congrArg (Except.map t.documentUnion) hrequire

theorem unionAt_of_documents {path : Path} {places : List (Located DocumentRef)}
    (hkind : path.kind = .document) (h : t.nodesAt path = .documents places) :
    t.unionAt path = t.unionOfDocuments places := by
  rw [unionAt, hkind]
  exact congrArg (fun frontier => t.unionOfDocuments frontier.reachedDocuments) h

end SchemaTree

theorem NodeHandle.Placed.generated {c : CollectionHandle Handle} {d : DocumentHandle Handle}
    (hc : (NodeHandle.collection c).Placed s) (h : c.generatedDocument.Returns before d after) :
    (NodeHandle.document d).Placed s := by
  obtain ⟨hplaces, -, rfl, -⟩ :=
    CollectionHandle.obtains_generatedDocument_iff.1 ⟨after.entries, h⟩
  obtain rfl : c.store = s := hc.store_eq
  have hpath : c.path = .ofNames c.path.texts := hc.path_eq
  have hkind : c.path.kind = .collection := hc.kind_eq
  constructor
  · rfl
  · exact Path.eq_ofNames_texts rfl
  · rw [hpath] at hplaces
    exact SchemaTree.declares_concat_of_generic hplaces
  · change (Path.ofNames (c.path.texts ++ [genericLabel])).kind = .document
    rw [Path.kind_ofNames_concat, ← hpath, hkind]
    rfl

/-- Wherever a handle comes from, it stands at a declared path of its class. -/
theorem Store.Gives.placed {naming : Naming}
    (h : s.Gives (fun v => v.isText = true) naming n) : n.Placed s := by
  induction h with
  | opened hsegments h => exact NodeHandle.placed_openNode hsegments h
  | child hn hname h ih => exact ih.child h
  | generated hc h ih => exact ih.generated h

/-! ### Schemas at paths -/

theorem Store.Gives.schemas_of_given (h : s.Gives (fun v => v.isText = true) .given n) :
    n.schemas = s.tree.unionAt n.path := by
  cases h with
  | opened hsegments h =>
    obtain ⟨path, handle, -, -, -, -, rfl⟩ := obtains_openNode_iff.1 ⟨_, h⟩
    rw [NodeHandle.path_ofKind, NodeHandle.schemas_ofKind]
  | child hn hname h =>
    obtain ⟨last, -, -, -, -, rfl, -⟩ := NodeHandle.obtains_child_iff.1 ⟨_, h⟩
    rw [NodeHandle.path_ofKind, NodeHandle.schemas_ofKind, hn.placed.store_eq]

/-- Unless the label is a name, it leads to the generic document. -/
theorem SchemaTree.unionAt_genericLabel {t : SchemaTree} {place : Located Nat}
    {document : DocumentRef} {names : List String}
    (hreached : t.nodesAt (.ofNames names) = .collections [place])
    (hgeneric : (t.collection place.node).generic? = some document)
    (hlabel : (t.collection place.node).literal? genericLabel = none)
    (hkind : (Path.ofNames (names ++ [genericLabel])).kind = .document) :
    t.unionAt (.ofNames (names ++ [genericLabel])) =
      t.unionOfDocuments [⟨document, place.keys ++ [genericLabel]⟩] := by
  refine unionAt_of_documents hkind ?_
  rw [nodesAt_concat_of_collection hreached, intoDocuments_genericLabel hgeneric hlabel]

/-- Under a generated name stands the generic document of the one collection above. -/
theorem Store.Gives.schemas_of_generated {collection : Path}
    (h : s.Gives (fun v => v.isText = true) (.generated collection) n) :
    n.path = .ofNames (collection.texts ++ [genericLabel]) ∧
      ∃ place document, s.tree.nodesAt collection = .collections [place] ∧
        (s.tree.collection place.node).generic? = some document ∧
        n.schemas = s.tree.unionOfDocuments [⟨document, place.keys ++ [genericLabel]⟩] ∧
        ((s.tree.collection place.node).literal? genericLabel = none →
          n.schemas = s.tree.unionAt n.path) := by
  have hkind := h.placed.kind_eq
  cases h with
  | @generated _ c _ _ _ hc h =>
    obtain ⟨hplaces, -, rfl, -⟩ := CollectionHandle.obtains_generatedDocument_iff.1 ⟨_, h⟩
    obtain rfl : c.store = s := hc.placed.store_eq
    have hpath : c.path = .ofNames c.path.texts := hc.placed.path_eq
    rw [hpath] at hplaces
    obtain ⟨place, document, hreached, hgeneric⟩ := SchemaTree.exists_generic hplaces
    have hdocuments := SchemaTree.genericDocuments_singleton hgeneric
    rw [← hreached, ← hpath] at hdocuments
    have hschemas := congrArg c.store.tree.unionOfDocuments hdocuments
    refine ⟨rfl, place, document, hpath ▸ hreached, hgeneric, hschemas, fun hlabel => ?_⟩
    exact hschemas.trans (SchemaTree.unionAt_genericLabel hreached hgeneric hlabel hkind).symm

/-- People, one of whom has the label of all others for a name. -/
def peopleGraph : Graph where
  nodes := #[.mapping [(.text "people", .node 1)],
    .mapping [(.text genericLabel, .node 2), (.text "*", .node 3)],
    .mapping [(.text "$schema", .node 4)],
    .mapping [(.text "$schema", .node 5)],
    .mapping [(.text "name", .leaf (.text "string"))],
    .mapping [(.text "age", .leaf (.text "number"))]]
  root := .node 0

def people : Path := .ofNames ["people"]

def person : Path := .ofNames ["people", genericLabel]

theorem ofGraph_peopleGraph : ∃ t, SchemaTree.ofGraph peopleGraph .default = .ok t ∧
    t.declares people = true ∧ CollectionHandle.genericDocuments t (t.nodesAt people) ≠ [] ∧
    (t.unionAt person).same
      (t.unionOfDocuments (CollectionHandle.genericDocuments t (t.nodesAt people))) = false := by
  have h : ((SchemaTree.ofGraph peopleGraph .default).toOption.any fun t =>
      t.declares people &&
        (!(CollectionHandle.genericDocuments t (t.nodesAt people)).isEmpty &&
        !(t.unionAt person).same
          (t.unionOfDocuments (CollectionHandle.genericDocuments t (t.nodesAt people))))) =
      true := by
    decide +kernel
  cases ht : SchemaTree.ofGraph peopleGraph .default with
  | error e =>
    rw [ht] at h
    cases h
  | ok t =>
    rw [ht] at h
    obtain ⟨hdeclared, hrest⟩ := Bool.and_eq_true_iff.1 h
    obtain ⟨hplaces, hdiffer⟩ := Bool.and_eq_true_iff.1 hrest
    rw [Bool.not_eq_true'] at hdiffer
    refine ⟨t, rfl, hdeclared, fun hnil => ?_, hdiffer⟩
    rw [hnil] at hplaces
    cases hplaces

/-- A store whose client numbers the nodes in the order in which they are asked for. -/
def peopleStore (t : SchemaTree) : Store Nat :=
  ⟨⟨fun requests _ _ _ => requests.length, fun _ _ => []⟩, t, 64⟩

/-- A person with a generated name. -/
theorem gives_person : ∃ (s : Store Nat) (d : DocumentHandle Nat),
    SchemaTree.ofGraph peopleGraph .default = .ok s.tree ∧
    s.Gives (fun v => v.isText = true) (.generated people) (.document d) ∧
    d.path = person ∧ (s.tree.unionAt person).same d.schemas = false := by
  obtain ⟨t, ht, hdeclared, hplaces, hdiffer⟩ := ofGraph_peopleGraph
  have hopened : ((peopleStore t).openNode .collection [.text "people"]).Obtains .blank
      (.collection ⟨peopleStore t, 0, people, t.unionAt people⟩)
      [.child none .collection (some "people")] :=
    Store.obtains_openNode_iff.2 ⟨people, 0, rfl, rfl, hdeclared, rfl, rfl⟩
  obtain ⟨entries, hopened⟩ := hopened
  have hnames : ∀ text ∈ ["people", genericLabel], IsName text := by decide
  have hgenerated : (CollectionHandle.mk (peopleStore t) 0 people
      (t.unionAt people)).generatedDocument.Obtains
      ⟨[.child none .collection (some "people")], entries⟩
      ⟨peopleStore t, 1, person,
        t.unionOfDocuments (CollectionHandle.genericDocuments t (t.nodesAt people))⟩
      [.child none .collection (some "people"), .child (some 0) .document none] :=
    CollectionHandle.obtains_generatedDocument_iff.2 ⟨hplaces, hnames, rfl, rfl⟩
  obtain ⟨_, hgenerated⟩ := hgenerated
  have hsegments : ∀ v ∈ [Value.text "people"], v.isText = true :=
    fun v hv => List.mem_singleton.1 hv ▸ rfl
  exact ⟨_, _, ht, .generated (.opened hsegments hopened) hgenerated, rfl, hdiffer⟩

/-- The schemas of such a person are not the ones at its path. -/
theorem not_schemas_at_path : ∃ (s : Store Nat) (d : DocumentHandle Nat) (u : SchemaUnion),
    SchemaTree.ofGraph peopleGraph .default = .ok s.tree ∧
    s.Gives (fun v => v.isText = true) (.generated people) (.document d) ∧
    s.tree.resolve d.path = .ok u ∧ u.same d.schemas = false := by
  obtain ⟨s, d, ht, hgives, hpath, hdiffer⟩ := gives_person
  have hresolve : s.tree.resolveAs .document person = .ok (s.tree.unionAt person) :=
    SchemaTree.resolveAs_of_kind rfl
  exact ⟨s, d, _, ht, hgives, hpath.symm ▸ hresolve, hdiffer⟩

/--
Every handle stands at a declared path of its class without wildcards, and with one exception its
schemas are the ones at that path. The exception is a document with a generated name in a collection
where the label of the generic document is the name of another one: its schemas are those of the
generic document, as they are for all generated names.
-/
theorem Store.Gives.schemas_at_path {naming : Naming}
    (h : s.Gives (fun v => v.isText = true) naming n) :
    n.path.hasWildcards = false ∧ s.tree.declares n.path = true ∧ n.path.kind = n.kind ∧
      (naming = .given → s.tree.resolveAs n.kind n.path = .ok n.schemas) ∧
      ∀ collection, naming = .generated collection →
        n.path = .ofNames (collection.texts ++ [genericLabel]) ∧
        ∃ place document, s.tree.nodesAt collection = .collections [place] ∧
          (s.tree.collection place.node).generic? = some document ∧
          n.schemas = s.tree.unionOfDocuments [⟨document, place.keys ++ [genericLabel]⟩] ∧
          ((s.tree.collection place.node).literal? genericLabel = none →
            s.tree.resolveAs n.kind n.path = .ok n.schemas) := by
  have hplaced := h.placed
  have hresolved := SchemaTree.resolveAs_of_kind (t := s.tree) hplaced.kind_eq
  refine ⟨?_, hplaced.declared, hplaced.kind_eq, ?_, ?_⟩
  · rw [hplaced.path_eq]
    exact Path.hasWildcards_ofNames _
  · rintro rfl
    rw [hresolved, h.schemas_of_given]
  · rintro collection rfl
    rw [hresolved, Except.ok.injEq]
    obtain ⟨hpath, place, document, hreached, hgeneric, hschemas, hlabel⟩ := h.schemas_of_generated
    exact ⟨hpath, place, document, hreached, hgeneric, hschemas, fun h => (hlabel h).symm⟩

/-- The person with the generated name stands at a path that leads to another one. -/
theorem schemas_at_path_person : ∃ (s : Store Nat) (d : DocumentHandle Nat),
    s.Gives (fun v => v.isText = true) (.generated people) (.document d) ∧
    s.tree.declares d.path = true ∧ d.path = person := by
  obtain ⟨s, d, -, hgives, -⟩ := gives_person
  obtain ⟨-, hdeclared, -, -, hgenerated⟩ := hgives.schemas_at_path
  exact ⟨s, d, hgives, hdeclared, (hgenerated people rfl).1⟩

end SchemaAtlas
