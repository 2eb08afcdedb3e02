import Mathlib.Data.List.Basic
import SchemaAtlas.Proofs.SchemaUnion
import SchemaAtlas.Tree.Resolution

/-!
# Walks in a tree

Resolution of a path as a chain of single steps. A place is a node, by its identity, with the keys
that lead to it; a segment leads from a place to its children that the segment can stand for, and a
list of segments leads along such steps. The places of a path are those that its segments lead to
from the root. Nothing is assumed about the tree, so the same node may stand at any number of
places.
-/
namespace SchemaAtlas

/-- A node of the tree by its identity. -/
inductive TreeNode
  | document (ref : DocumentRef)
  | collection (id : Nat)
  deriving DecidableEq

/-- Another node at the same keys. -/
def Located.withNode {α β : Type} (f : α → β) (place : Located α) : Located β :=
  ⟨f place.node, place.keys⟩

theorem Located.withNode_injective {α β : Type} {f : α → β} (hf : Function.Injective f) :
    Function.Injective (withNode f) := by
  rintro ⟨a, keys⟩ ⟨b, others⟩ h
  obtain ⟨hnode, hkeys⟩ := Located.mk.inj h
  obtain rfl := hf hnode
  obtain rfl : keys = others := hkeys
  rfl

namespace Frontier

/-- The nodes that are reached, with the keys that lead to them. -/
def places : Frontier → List (Located TreeNode)
  | documents places => places.map (Located.withNode .document)
  | collections places => places.map (Located.withNode .collection)

theorem mem_reachedDocuments {frontier : Frontier} {place : Located DocumentRef} :
    place ∈ frontier.reachedDocuments ↔ place.withNode .document ∈ frontier.places := by
  cases frontier with
  | documents places =>
    refine (List.mem_map_of_injective (Located.withNode_injective ?_)).symm
    exact fun _ _ => TreeNode.document.inj
  | collections places => simp [reachedDocuments, Frontier.places, Located.withNode]

theorem mem_reachedCollections {frontier : Frontier} {place : Located Nat} :
    place ∈ frontier.reachedCollections ↔ place.withNode .collection ∈ frontier.places := by
  cases frontier with
  | documents places => simp [reachedCollections, Frontier.places, Located.withNode]
  | collections places =>
    refine (List.mem_map_of_injective (Located.withNode_injective ?_)).symm
    exact fun _ _ => TreeNode.collection.inj

end Frontier

theorem Path.require_collection {path : Path} (h : path.length % 2 = 1) :
    path.require .collection = .ok path := by
  rw [require, kind, if_pos h, if_pos rfl]

theorem Path.require_document {path : Path} (h : path.length % 2 = 0) :
    path.require .document = .ok path := by
  have hodd : ¬path.length % 2 = 1 := by omega
  rw [require, kind, if_neg hodd, if_pos rfl]

/-- A wildcard. -/
def Segment.any : Segment := ⟨genericLabel, .wildcard⟩

namespace SchemaTree

/-- The places that a segment can stand for below a place. -/
def childrenAt (t : SchemaTree) (segment : Segment) : Located TreeNode → List (Located TreeNode)
  | ⟨.document ref, keys⟩ => (Frontier.collections (t.intoCollections segment ⟨ref, keys⟩)).places
  | ⟨.collection id, keys⟩ => (Frontier.documents (t.intoDocuments segment ⟨id, keys⟩)).places

/-- Whether segments lead from one place to another. -/
def Leads (t : SchemaTree) : List Segment → Located TreeNode → Located TreeNode → Prop
  | [], place, last => place = last
  | segment :: rest, place, last => ∃ next ∈ t.childrenAt segment place, t.Leads rest next last

def rootPlace : Located TreeNode := ⟨.document .root, []⟩

theorem places_advance (t : SchemaTree) (frontier : Frontier) (segment : Segment) :
    (t.advance frontier segment).places = frontier.places.flatMap (t.childrenAt segment) := by
  cases frontier with
  | documents places =>
    simp only [advance, Frontier.places, List.map_flatMap, List.flatMap_map]
    rfl
  | collections places =>
    simp only [advance, Frontier.places, List.map_flatMap, List.flatMap_map]
    rfl

theorem mem_foldl_advance {t : SchemaTree} {segments : List Segment} {frontier : Frontier}
    {last : Located TreeNode} :
    last ∈ (segments.foldl t.advance frontier).places ↔
      ∃ place ∈ frontier.places, t.Leads segments place last := by
  induction segments generalizing frontier with
  | nil => simp [Leads]
  | cons segment rest ih =>
    rw [List.foldl_cons, ih, places_advance]
    constructor
    · intro h
      obtain ⟨next, hnext, hrest⟩ := h
      obtain ⟨place, hplace, hstep⟩ := List.mem_flatMap.1 hnext
      exact ⟨place, hplace, next, hstep, hrest⟩
    · intro h
      obtain ⟨place, hplace, next, hstep, hrest⟩ := h
      exact ⟨next, List.mem_flatMap.2 ⟨place, hplace, hstep⟩, hrest⟩

/-- The places of a path are those that its segments lead to from the root. -/
theorem mem_nodesAt {t : SchemaTree} {path : Path} {last : Located TreeNode} :
    last ∈ (t.nodesAt path).places ↔ t.Leads path.segments rootPlace last := by
  rw [nodesAt, mem_foldl_advance]
  simp [start, Frontier.places, Located.withNode, rootPlace]

theorem leads_append {t : SchemaTree} {before after : List Segment}
    {place last : Located TreeNode} :
    t.Leads (before ++ after) place last ↔
      ∃ middle, t.Leads before place middle ∧ t.Leads after middle last := by
  induction before generalizing place with
  | nil => simp [Leads]
  | cons segment rest ih =>
    rw [List.cons_append, Leads]
    constructor
    · intro h
      obtain ⟨next, hnext, h⟩ := h
      obtain ⟨middle, hbefore, hafter⟩ := ih.1 h
      exact ⟨middle, ⟨next, hnext, hbefore⟩, hafter⟩
    · intro h
      obtain ⟨middle, ⟨next, hnext, hbefore⟩, hafter⟩ := h
      exact ⟨next, hnext, ih.2 ⟨middle, hbefore, hafter⟩⟩

/-! ### The single steps -/

theorem mem_childrenAt_document_wildcard {t : SchemaTree} {segment : Segment}
    (h : segment.isWildcard = true) {ref : DocumentRef} {keys : List String}
    {next : Located TreeNode} :
    next ∈ t.childrenAt segment ⟨.document ref, keys⟩ ↔
      ∃ name id, (name, id) ∈ (t.document ref).collections ∧
        next = ⟨.collection id, keys ++ [name]⟩ := by
  simp [childrenAt, Frontier.places, intoCollections, Located.withNode, h, eq_comm]

theorem mem_childrenAt_document_name {t : SchemaTree} {segment : Segment}
    (h : segment.isWildcard = false) {ref : DocumentRef} {keys : List String}
    {next : Located TreeNode} :
    next ∈ t.childrenAt segment ⟨.document ref, keys⟩ ↔
      ∃ id, (t.document ref).child? segment.text = some id ∧
        next = ⟨.collection id, keys ++ [segment.text]⟩ := by
  cases hc : (t.document ref).child? segment.text with
  | none => simp [childrenAt, Frontier.places, intoCollections, h, hc]
  | some found => simp [childrenAt, Frontier.places, intoCollections, h, hc, Located.withNode]

theorem mem_childrenAt_collection_wildcard {t : SchemaTree} {segment : Segment}
    (h : segment.isWildcard = true) {id : Nat} {keys : List String} {next : Located TreeNode} :
    next ∈ t.childrenAt segment ⟨.collection id, keys⟩ ↔
      ∃ label ref, (label, ref) ∈ (t.collection id).labelled ∧
        next = ⟨.document ref, keys ++ [label]⟩ := by
  simp [childrenAt, Frontier.places, intoDocuments, memberDocuments, Located.withNode, h, eq_comm]

theorem mem_childrenAt_collection_name {t : SchemaTree} {segment : Segment}
    (h : segment.isWildcard = false) {id : Nat} {keys : List String} {next : Located TreeNode} :
    next ∈ t.childrenAt segment ⟨.collection id, keys⟩ ↔
      ∃ label ref, (t.collection id).resolve? segment.text = some (label, ref) ∧
        next = ⟨.document ref, keys ++ [label]⟩ := by
  cases hc : (t.collection id).resolve? segment.text with
  | none => simp [childrenAt, Frontier.places, intoDocuments, h, hc]
  | some found =>
    obtain ⟨label, ref⟩ := found
    simp [childrenAt, Frontier.places, intoDocuments, h, hc, Located.withNode]

/-! ### The schemas at a path -/

theorem mem_memberDocuments {t : SchemaTree} {place : Located DocumentRef} {above : Located Nat} :
    place ∈ t.memberDocuments above ↔
      place.withNode .document ∈ t.childrenAt .any (above.withNode .collection) :=
  @Frontier.mem_reachedDocuments (.documents (t.memberDocuments above)) place

theorem mem_reachedDocuments_nodesAt {t : SchemaTree} {path : Path} {ref : DocumentRef}
    {walked : List String} :
    ⟨ref, walked⟩ ∈ (t.nodesAt path).reachedDocuments ↔
      t.Leads path.segments rootPlace ⟨.document ref, walked⟩ := by
  rw [Frontier.mem_reachedDocuments, mem_nodesAt]
  rfl

/-- The documents in the collections of a path are those one more wildcard away. -/
theorem mem_memberDocuments_nodesAt {t : SchemaTree} {path : Path} {ref : DocumentRef}
    {walked : List String} :
    ⟨ref, walked⟩ ∈ (t.nodesAt path).reachedCollections.flatMap t.memberDocuments ↔
      t.Leads (path.segments ++ [.any]) rootPlace ⟨.document ref, walked⟩ := by
  rw [List.mem_flatMap, leads_append]
  constructor
  · intro h
    obtain ⟨above, habove, hmember⟩ := h
    refine ⟨above.withNode .collection, ?_, _, mem_memberDocuments.1 hmember, rfl⟩
    exact mem_nodesAt.1 (Frontier.mem_reachedCollections.1 habove)
  · intro h
    obtain ⟨⟨node, keys⟩, hleads, next, hnext, rfl⟩ := h
    cases node with
    | document ref =>
      obtain ⟨_, _, _, heq⟩ := (mem_childrenAt_document_wildcard rfl).1 hnext
      cases heq
    | collection id =>
      refine ⟨⟨id, keys⟩, ?_, mem_memberDocuments.2 hnext⟩
      exact Frontier.mem_reachedCollections.2 (mem_nodesAt.2 hleads)

theorem hasOrigin_unionOfDocuments {t : SchemaTree} {places : List (Located DocumentRef)}
    {s : Schema} {origin : String} :
    (t.unionOfDocuments places).HasOrigin s origin ↔
      ∃ place ∈ places, (t.document place.node).schema.same s = true ∧ origin = place.origin := by
  rw [unionOfDocuments, SchemaUnion.hasOrigin_ofPairs]
  constructor
  · intro h
    obtain ⟨schema, hpair, hsame⟩ := h
    obtain ⟨place, hplace, heq⟩ := List.mem_map.1 hpair
    obtain ⟨rfl, rfl⟩ := Prod.mk.inj heq
    exact ⟨place, hplace, hsame, rfl⟩
  · intro h
    obtain ⟨place, hplace, hsame, rfl⟩ := h
    exact ⟨_, List.mem_map_of_mem hplace, hsame⟩

theorem contains_unionOfDocuments {t : SchemaTree} {places : List (Located DocumentRef)}
    {s : Schema} :
    (t.unionOfDocuments places).contains s = true ↔
      ∃ place ∈ places, (t.document place.node).schema.same s = true := by
  rw [unionOfDocuments, SchemaUnion.contains_ofPairs]
  constructor
  · intro h
    obtain ⟨pair, hpair, hsame⟩ := h
    obtain ⟨place, hplace, rfl⟩ := List.mem_map.1 hpair
    exact ⟨place, hplace, hsame⟩
  · intro h
    obtain ⟨place, hplace, hsame⟩ := h
    exact ⟨_, List.mem_map_of_mem hplace, hsame⟩

theorem hasOrigin_documentUnion {t : SchemaTree} {path : Path} {s : Schema} {origin : String} :
    (t.documentUnion path).HasOrigin s origin ↔ ∃ ref walked,
      t.Leads path.segments rootPlace ⟨.document ref, walked⟩ ∧
        (t.document ref).schema.same s = true ∧ origin = joinPath walked := by
  rw [documentUnion, hasOrigin_unionOfDocuments]
  constructor
  · intro h
    obtain ⟨⟨ref, walked⟩, hplace, hsame, rfl⟩ := h
    exact ⟨ref, walked, mem_reachedDocuments_nodesAt.1 hplace, hsame, rfl⟩
  · intro h
    obtain ⟨ref, walked, hleads, hsame, rfl⟩ := h
    exact ⟨⟨ref, walked⟩, mem_reachedDocuments_nodesAt.2 hleads, hsame, rfl⟩

theorem hasOrigin_collectionUnion {t : SchemaTree} {path : Path} {s : Schema} {origin : String} :
    (t.collectionUnion path).HasOrigin s origin ↔ ∃ ref walked,
      t.Leads (path.segments ++ [.any]) rootPlace ⟨.document ref, walked⟩ ∧
        (t.document ref).schema.same s = true ∧ origin = joinPath walked := by
  rw [collectionUnion, hasOrigin_unionOfDocuments]
  constructor
  · intro h
    obtain ⟨⟨ref, walked⟩, hplace, hsame, rfl⟩ := h
    exact ⟨ref, walked, mem_memberDocuments_nodesAt.1 hplace, hsame, rfl⟩
  · intro h
    obtain ⟨ref, walked, hleads, hsame, rfl⟩ := h
    exact ⟨⟨ref, walked⟩, mem_memberDocuments_nodesAt.2 hleads, hsame, rfl⟩

theorem contains_collectionUnion {t : SchemaTree} {path : Path} {s : Schema} :
    (t.collectionUnion path).contains s = true ↔ ∃ ref,
      (∃ walked, t.Leads (path.segments ++ [.any]) rootPlace ⟨.document ref, walked⟩) ∧
        (t.document ref).schema.same s = true := by
  rw [collectionUnion, contains_unionOfDocuments]
  constructor
  · intro h
    obtain ⟨⟨ref, walked⟩, hplace, hsame⟩ := h
    exact ⟨ref, ⟨walked, mem_memberDocuments_nodesAt.1 hplace⟩, hsame⟩
  · intro h
    obtain ⟨ref, ⟨walked, hleads⟩, hsame⟩ := h
    exact ⟨⟨ref, walked⟩, mem_memberDocuments_nodesAt.2 hleads, hsame⟩

end SchemaTree
end SchemaAtlas
