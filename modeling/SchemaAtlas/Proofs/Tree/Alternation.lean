import SchemaAtlas.Proofs.Except
import SchemaAtlas.Proofs.Tree.Members

/-!
# Kinds along a path

Resolution over nodes whose kinds nobody knows beforehand: at each position of a path, every node of
the frontier is checked to be of the kind that the position asks for, and a node of the other kind is
a fault. No such fault is ever met, so resolution with the checks is resolution with frontiers of one
kind each.
-/
namespace SchemaAtlas

def TreeNode.kind : TreeNode → PathKind
  | document _ => .document
  | collection _ => .collection

theorem TreeNode.exists_of_kind_document {node : TreeNode} (h : node.kind = .document) :
    ∃ ref, node = .document ref := by
  cases node with
  | document ref => exact ⟨ref, rfl⟩
  | collection id => cases h

theorem TreeNode.exists_of_kind_collection {node : TreeNode} (h : node.kind = .collection) :
    ∃ id, node = .collection id := by
  cases node with
  | document ref => cases h
  | collection id => exact ⟨id, rfl⟩

/-- A node where one of another kind is needed. -/
structure Misplaced where
  node : TreeNode
  needed : PathKind

/-- Why a path is not resolved: it is not of the right kind itself, or a node on its way is not. -/
inductive ResolutionFault
  | path (error : PathError)
  | misplaced (node : Misplaced)

namespace Located

/-- The place of a node that has to be a document. -/
def toDocument : Located TreeNode → Except Misplaced (Located DocumentRef)
  | ⟨.document ref, keys⟩ => .ok ⟨ref, keys⟩
  | ⟨node, _⟩ => .error ⟨node, .document⟩

/-- The place of a node that has to be a collection. -/
def toCollection : Located TreeNode → Except Misplaced (Located Nat)
  | ⟨.collection id, keys⟩ => .ok ⟨id, keys⟩
  | ⟨node, _⟩ => .error ⟨node, .collection⟩

end Located

namespace SchemaTree

/-- One step from one place; behind an even number of segments it has to be that of a document. -/
def checkedStep (t : SchemaTree) (index : Nat) (segment : Segment) (place : Located TreeNode) :
    Except Misplaced (List (Located TreeNode)) :=
  if index % 2 = 0 then
    place.toDocument.map fun place => (t.intoCollections segment place).map (.withNode .collection)
  else
    place.toCollection.map fun place => (t.intoDocuments segment place).map (.withNode .document)

/-- The places that the segments from `index` on lead to; none are left once there are none. -/
def checkedPlacesFrom (t : SchemaTree) :
    (index : Nat) → (frontier : List (Located TreeNode)) → List Segment →
      Except Misplaced (List (Located TreeNode))
  | _, frontier, [] => .ok frontier
  | index, frontier, segment :: rest => do
    let next ← frontier.mapM (t.checkedStep index segment)
    if next.flatten.isEmpty then return []
    else t.checkedPlacesFrom (index + 1) next.flatten rest

/-- The places of a path, from the root on. -/
def checkedPlaces (t : SchemaTree) (path : Path) : Except Misplaced (List (Located TreeNode)) :=
  t.checkedPlacesFrom 0 [rootPlace] path.segments

/-- The schemas at a document path, if every place there is that of a document. -/
def checkedResolve (t : SchemaTree) (path : Path) : Except ResolutionFault SchemaUnion := do
  let path ← (path.require .document).mapError .path
  let places ← (t.checkedPlaces path).mapError .misplaced
  let documents ← (places.mapM Located.toDocument).mapError .misplaced
  return t.unionOfDocuments documents

/-- The schemas at a collection path, if every place there is that of a collection. -/
def checkedResolveCollection (t : SchemaTree) (path : Path) :
    Except ResolutionFault SchemaUnion := do
  let path ← (path.require .collection).mapError .path
  let places ← (t.checkedPlaces path).mapError .misplaced
  let collections ← (places.mapM Located.toCollection).mapError .misplaced
  return t.unionOfDocuments (collections.flatMap t.memberDocuments)

/-- The schemas at a path of either kind. -/
def checkedUnionAt (t : SchemaTree) (path : Path) : Except ResolutionFault SchemaUnion :=
  match path.kind with
  | .document => t.checkedResolve path
  | .collection => t.checkedResolveCollection path

end SchemaTree

/-! ### Frontiers of one kind -/

namespace Frontier

variable {frontier : Frontier}

theorem kind_of_mem_places {place : Located TreeNode} (h : place ∈ frontier.places) :
    place.node.kind = frontier.kind := by
  cases frontier with
  | documents places =>
    obtain ⟨_, _, rfl⟩ := List.mem_map.1 h
    rfl
  | collections places =>
    obtain ⟨_, _, rfl⟩ := List.mem_map.1 h
    rfl

theorem length_places (frontier : Frontier) : frontier.places.length = frontier.size := by
  cases frontier <;> simp [Frontier.places, size]

theorem places_eq_nil_iff : frontier.places = [] ↔ frontier.size = 0 := by
  rw [← length_places, List.length_eq_zero_iff]

theorem mapM_toDocument (h : frontier.kind = .document) :
    frontier.places.mapM Located.toDocument = .ok frontier.reachedDocuments := by
  cases frontier with
  | collections places => cases h
  | documents places =>
    have hplaces := mapM_map_eq_ok (fun place => show
      Located.toDocument (place.withNode .document) = .ok (id place) from rfl) places
    rwa [List.map_id] at hplaces

theorem mapM_toCollection (h : frontier.kind = .collection) :
    frontier.places.mapM Located.toCollection = .ok frontier.reachedCollections := by
  cases frontier with
  | documents places => cases h
  | collections places =>
    have hplaces := mapM_map_eq_ok (fun place => show
      Located.toCollection (place.withNode .collection) = .ok (id place) from rfl) places
    rwa [List.map_id] at hplaces

end Frontier

namespace SchemaTree

variable {t : SchemaTree}

/-- The kind of the nodes behind so many segments. -/
def kindBehind (index : Nat) : PathKind := if index % 2 = 0 then .document else .collection

theorem kindBehind_succ (index : Nat) : kindBehind (index + 1) = (kindBehind index).other := by
  unfold kindBehind
  by_cases heven : index % 2 = 0
  · have hodd : ¬ (index + 1) % 2 = 0 := by omega
    rw [if_pos heven, if_neg hodd]
    rfl
  · have hnext : (index + 1) % 2 = 0 := by omega
    rw [if_neg heven, if_pos hnext]
    rfl

/-- One segment: the checks hold on a frontier of the kind that its position asks for. -/
theorem mapM_checkedStep {frontier : Frontier} {index : Nat}
    (h : frontier.kind = kindBehind index) (segment : Segment) :
    ∃ next, frontier.places.mapM (t.checkedStep index segment) = .ok next ∧
      next.flatten = (t.advance frontier segment).places := by
  unfold kindBehind at h
  cases frontier with
  | documents places =>
    have heven : index % 2 = 0 := by
      by_contra hodd
      rw [if_neg hodd] at h
      cases h
    have hstep : ∀ place : Located DocumentRef,
        t.checkedStep index segment (place.withNode .document) =
          .ok ((t.intoCollections segment place).map (.withNode .collection)) := by
      intro place
      rw [checkedStep, if_pos heven]
      rfl
    refine ⟨_, mapM_map_eq_ok hstep places, ?_⟩
    rw [← List.flatMap_def, ← List.map_flatMap]
    rfl
  | collections places =>
    have hodd : ¬ index % 2 = 0 := by
      intro heven
      rw [if_pos heven] at h
      cases h
    have hstep : ∀ place : Located Nat,
        t.checkedStep index segment (place.withNode .collection) =
          .ok ((t.intoDocuments segment place).map (.withNode .document)) := by
      intro place
      rw [checkedStep, if_neg hodd]
      rfl
    refine ⟨_, mapM_map_eq_ok hstep places, ?_⟩
    rw [← List.flatMap_def, ← List.map_flatMap]
    rfl

/-- All segments: leaving the loop early loses nothing, since nothing is found beyond nothing. -/
theorem checkedPlacesFrom_eq {frontier : Frontier} {index : Nat}
    (h : frontier.kind = kindBehind index) (segments : List Segment) :
    t.checkedPlacesFrom index frontier.places segments =
      .ok (segments.foldl t.advance frontier).places := by
  induction segments generalizing frontier index with
  | nil => rfl
  | cons segment rest ih =>
    obtain ⟨next, hnext, hflatten⟩ := mapM_checkedStep h segment
    have hkind : (t.advance frontier segment).kind = kindBehind (index + 1) := by
      rw [kind_advance, h, kindBehind_succ]
    rw [checkedPlacesFrom, hnext]
    show (if next.flatten.isEmpty then Except.ok [] else _) = _
    rw [hflatten, ih hkind]
    by_cases hempty : (t.advance frontier segment).places = []
    · have hrest : ((segment :: rest).foldl t.advance frontier).size = 0 :=
        size_foldl_advance_eq_zero (Frontier.places_eq_nil_iff.1 hempty) rest
      rw [if_pos (List.isEmpty_iff.2 hempty), Frontier.places_eq_nil_iff.2 hrest]
    · rw [if_neg (fun h => hempty (List.isEmpty_iff.1 h)), List.foldl_cons]

theorem checkedPlaces_eq (t : SchemaTree) (path : Path) :
    t.checkedPlaces path = .ok (t.nodesAt path).places := by
  have hstart : start.kind = kindBehind 0 := rfl
  exact checkedPlacesFrom_eq hstart path.segments

/-! ### Unions -/

theorem checkedResolve_eq (t : SchemaTree) (path : Path) :
    t.checkedResolve path = (t.resolve path).mapError .path := by
  unfold checkedResolve resolve
  by_cases hkind : path.kind = .document
  · have hdocuments := Frontier.mapM_toDocument ((t.kind_nodesAt path).trans hkind)
    rw [Path.require_eq_ok_iff.2 ⟨hkind, rfl⟩]
    simp only [Except.mapError, bind, Except.bind, checkedPlaces_eq, hdocuments]
    rfl
  · rw [Path.require, if_neg hkind]
    rfl

theorem checkedResolveCollection_eq (t : SchemaTree) (path : Path) :
    t.checkedResolveCollection path = (t.resolveCollection path).mapError .path := by
  unfold checkedResolveCollection resolveCollection
  by_cases hkind : path.kind = .collection
  · have hcollections := Frontier.mapM_toCollection ((t.kind_nodesAt path).trans hkind)
    rw [Path.require_eq_ok_iff.2 ⟨hkind, rfl⟩]
    simp only [Except.mapError, bind, Except.bind, checkedPlaces_eq, hcollections]
    rfl
  · rw [Path.require, if_neg hkind]
    rfl

theorem checkedUnionAt_eq (t : SchemaTree) (path : Path) :
    t.checkedUnionAt path = .ok (t.unionAt path) := by
  unfold checkedUnionAt unionAt
  cases hkind : path.kind with
  | document =>
    show t.checkedResolve path = _
    rw [checkedResolve_eq, resolve, Path.require_eq_ok_iff.2 ⟨hkind, rfl⟩]
    rfl
  | collection =>
    show t.checkedResolveCollection path = _
    rw [checkedResolveCollection_eq, resolveCollection, Path.require_eq_ok_iff.2 ⟨hkind, rfl⟩]
    rfl

/-! ### Keys -/

theorem length_keys_of_mem_childrenAt {segment : Segment} {place next : Located TreeNode}
    (h : next ∈ t.childrenAt segment place) : next.keys.length = place.keys.length + 1 := by
  obtain ⟨node, keys⟩ := place
  cases hwildcard : segment.isWildcard with
  | true =>
    cases node with
    | document ref =>
      obtain ⟨name, id, -, rfl⟩ := (mem_childrenAt_document_wildcard hwildcard).1 h
      simp
    | collection id =>
      obtain ⟨label, ref, -, rfl⟩ := (mem_childrenAt_collection_wildcard hwildcard).1 h
      simp
  | false =>
    cases node with
    | document ref =>
      obtain ⟨id, -, rfl⟩ := (mem_childrenAt_document_name hwildcard).1 h
      simp
    | collection id =>
      obtain ⟨label, ref, -, rfl⟩ := (mem_childrenAt_collection_name hwildcard).1 h
      simp

/-- Every segment adds a key. -/
theorem length_keys_of_mem_nodesAt {path : Path} {place : Located TreeNode}
    (h : place ∈ (t.nodesAt path).places) : place.keys.length = path.length := by
  obtain ⟨segments⟩ := path
  induction segments using List.reverseRecOn generalizing place with
  | nil =>
    obtain rfl := List.mem_singleton.1 h
    rfl
  | append_singleton segments segment ih =>
    rw [nodesAt_concat, places_advance] at h
    obtain ⟨above, habove, hnext⟩ := List.mem_flatMap.1 h
    rw [length_keys_of_mem_childrenAt hnext, ih habove]
    simp [Path.length]

/-! ### Names -/

theorem eq_ofNames_of_hasWildcards {path : Path} (h : path.hasWildcards = false) :
    path = .ofNames path.texts := by
  obtain ⟨segments⟩ := path
  have hliteral : ∀ segment ∈ segments, (⟨segment.text, .literal⟩ : Segment) = segment := by
    intro segment hsegment
    obtain ⟨text, kind⟩ := segment
    cases kind with
    | literal => rfl
    | wildcard => exact absurd rfl (List.any_eq_false.1 h _ hsegment)
  have hmap := List.map_congr_left hliteral
  simp only [Path.ofNames, Path.texts, List.map_map, Path.mk.injEq]
  exact (hmap.trans (List.map_id segments)).symm

theorem size_nodesAt_le_one {path : Path} (h : path.hasWildcards = false) :
    (t.nodesAt path).size ≤ 1 := by
  rw [eq_ofNames_of_hasWildcards h]
  exact size_nodesAt_ofNames_le_one t path.texts

/--
A path of any number of segments is resolved without a fault. What it leads to are collections for an
odd number and documents for an even one, each under as many keys as the path has segments; without
wildcards there is one of them at most; and if there is one, there is one for every shorter part of
the path from its start on. The unions of schemas at a path are made without a fault either.
-/
theorem resolution_alternates (t : SchemaTree) (path : Path) :
    (∃ places, t.checkedPlaces path = .ok places ∧ places = (t.nodesAt path).places ∧
      (∀ place ∈ places, place.keys.length = path.length ∧
        (path.length % 2 = 1 → ∃ id, place.node = .collection id) ∧
        (path.length % 2 = 0 → ∃ ref, place.node = .document ref)) ∧
      (path.hasWildcards = false → places.length ≤ 1) ∧
      (places ≠ [] → ∀ before, before ≠ [] → before <+: path.segments →
        ∃ above, t.checkedPlaces ⟨before⟩ = .ok above ∧ above ≠ [])) ∧
    t.checkedResolve path = (t.resolve path).mapError .path ∧
    t.checkedResolveCollection path = (t.resolveCollection path).mapError .path ∧
    t.checkedUnionAt path = .ok (t.unionAt path) := by
  refine ⟨⟨_, t.checkedPlaces_eq path, rfl, fun place hplace => ?_, fun hliteral => ?_,
    fun hne before _ hshorter => ⟨_, t.checkedPlaces_eq ⟨before⟩, fun hnil => hne ?_⟩⟩,
    t.checkedResolve_eq path, t.checkedResolveCollection_eq path, t.checkedUnionAt_eq path⟩
  · have hkind : place.node.kind = path.kind :=
      (Frontier.kind_of_mem_places hplace).trans (t.kind_nodesAt path)
    refine ⟨length_keys_of_mem_nodesAt hplace, fun hodd => ?_, fun heven => ?_⟩
    · apply TreeNode.exists_of_kind_collection
      rw [hkind, Path.kind, if_pos hodd]
    · apply TreeNode.exists_of_kind_document
      rw [hkind, Path.kind, if_neg (by omega)]
  · rw [Frontier.length_places]
    exact size_nodesAt_le_one hliteral
  · have hnothing : t.declares ⟨before⟩ = false := by
      rw [declares, Frontier.places_eq_nil_iff.1 hnil]
      rfl
    exact Frontier.places_eq_nil_iff.2 (size_nodesAt_of_shorter hshorter hnothing)

/-- The friends of any user are collections under three keys, found below the users there are. -/
theorem resolution_alternates_friends : ∃ t places, ofGraph friendsGraph .default = .ok t ∧
    t.checkedPlaces friendsPath = .ok places ∧ places ≠ [] ∧
      (∀ place ∈ places, place.keys.length = 3 ∧ ∃ id, place.node = .collection id) ∧
      ∃ above, t.checkedPlaces ⟨[⟨"users", .literal⟩, .any]⟩ = .ok above ∧ above ≠ [] := by
  obtain ⟨t, ht⟩ := ofGraph_friendsGraph
  have hsize : (ofGraph friendsGraph .default).toOption.map
      (fun t => (t.nodesAt friendsPath).size) = some 1 := by decide +kernel
  rw [ht] at hsize
  have hone : (t.nodesAt friendsPath).size = 1 := Option.some.inj hsize
  obtain ⟨⟨places, hplaces, rfl, hkinds, -, hprefixes⟩, -, -, -⟩ :=
    resolution_alternates t friendsPath
  have hne : (t.nodesAt friendsPath).places ≠ [] := by
    intro hnil
    rw [Frontier.places_eq_nil_iff.1 hnil] at hone
    cases hone
  refine ⟨t, _, ht, hplaces, hne, fun place hplace => ?_, ?_⟩
  · obtain ⟨hkeys, hcollection, -⟩ := hkinds place hplace
    exact ⟨hkeys, hcollection rfl⟩
  · exact hprefixes hne _ (List.cons_ne_nil _ _) ⟨[⟨"friends", .literal⟩], rfl⟩

end SchemaTree
end SchemaAtlas
