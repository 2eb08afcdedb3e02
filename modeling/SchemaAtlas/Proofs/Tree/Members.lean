import SchemaAtlas.Proofs.Tree.Literal
import SchemaAtlas.Proofs.Tree.Mirror

/-!
# The members of collections

Documents and collections take turns along a path, so what a path stands for is of the path's kind.
The schemas in the collections at a path are therefore found by one more wildcard as well, and a
path beyond one that stands for nothing has no schemas at all.
-/
namespace SchemaAtlas

/-- The kind of the nodes reached. -/
def Frontier.kind : Frontier → PathKind
  | documents _ => .document
  | collections _ => .collection

theorem Frontier.eq_collections {frontier : Frontier} (h : frontier.kind = .collection) :
    frontier = .collections frontier.reachedCollections := by
  cases frontier with
  | documents places => cases h
  | collections places => rfl

namespace SchemaTree

variable {t : SchemaTree}

theorem kind_advance (frontier : Frontier) (segment : Segment) :
    (t.advance frontier segment).kind = frontier.kind.other := by
  cases frontier with
  | documents places => rfl
  | collections places => rfl

/-- The nodes of a path are of its kind. -/
theorem kind_nodesAt (t : SchemaTree) (path : Path) : (t.nodesAt path).kind = path.kind := by
  obtain ⟨segments⟩ := path
  induction segments using List.reverseRecOn with
  | nil => rfl
  | append_singleton segments segment ih => rw [nodesAt_concat, kind_advance, ih, Path.kind_concat]

/-! ### One more wildcard -/

theorem intoDocuments_of_isWildcard {segment : Segment} (h : segment.isWildcard = true) :
    t.intoDocuments segment = t.memberDocuments := by
  funext place
  rw [intoDocuments, if_pos h]

/-- A wildcard behind a collection path takes every document of the collections there. -/
theorem nodesAt_concat_of_isWildcard {path : Path} (hkind : path.kind = .collection)
    {last : Segment} (hlast : last.isWildcard = true) :
    t.nodesAt ⟨path.segments ++ [last]⟩ =
      .documents ((t.nodesAt path).reachedCollections.flatMap t.memberDocuments) := by
  have hreached : t.nodesAt path = .collections (t.nodesAt path).reachedCollections :=
    Frontier.eq_collections ((t.kind_nodesAt path).trans hkind)
  rw [nodesAt_concat, hreached, advance, intoDocuments_of_isWildcard hlast]
  rfl

theorem unionOfDocuments_flatMap (places : List (Located Nat)) :
    t.unionOfDocuments (places.flatMap t.memberDocuments) =
      .ofPairs (places.flatMap fun place => (t.documentsOf place.node).map fun entry =>
        (entry.2.schema, joinPath (place.keys ++ [entry.1]))) := by
  simp only [unionOfDocuments, memberDocuments, documentsOf, List.map_flatMap, List.map_map]
  rfl

/-! ### Beyond nothing -/

theorem size_foldl_advance_eq_zero {frontier : Frontier} (h : frontier.size = 0)
    (segments : List Segment) : (segments.foldl t.advance frontier).size = 0 := by
  induction segments generalizing frontier with
  | nil => exact h
  | cons segment rest ih => exact ih (size_advance_eq_zero h)

/-- Where a path stands for nothing, so does every longer one. -/
theorem size_nodesAt_of_shorter {before : List Segment} {path : Path}
    (hshorter : before <+: path.segments) (h : t.declares ⟨before⟩ = false) :
    (t.nodesAt path).size = 0 := by
  obtain ⟨after, hafter⟩ := hshorter
  have hzero : (t.nodesAt ⟨before⟩).size = 0 := by
    by_contra hne
    exact absurd (declares_iff.2 hne) (Bool.eq_false_iff.1 h)
  rw [nodesAt, ← hafter, List.foldl_append]
  exact size_foldl_advance_eq_zero hzero after

theorem reachedCollections_of_size {frontier : Frontier} (h : frontier.size = 0) :
    frontier.reachedCollections = [] := by
  cases frontier with
  | documents places => rfl
  | collections places => exact List.length_eq_zero_iff.1 h

/--
A collection path and the same path with a wildcard behind it have one union: of the documents of
every collection that the path stands for, each at the collection's keys and its own label. The
union is empty if some part of the path from its start on stands for nothing.
-/
theorem resolveCollection_eq_resolve_wildcard (t : SchemaTree) (path : Path)
    (hkind : path.kind = .collection) (last : Segment) (hlast : last.isWildcard = true) :
    ∃ u, t.resolveCollection path = .ok u ∧ t.resolve ⟨path.segments ++ [last]⟩ = .ok u ∧
      u = .ofPairs ((t.nodesAt path).reachedCollections.flatMap fun place =>
        (t.documentsOf place.node).map fun entry =>
          (entry.2.schema, joinPath (place.keys ++ [entry.1]))) ∧
      ∀ before, before <+: path.segments → t.declares ⟨before⟩ = false → u = .empty := by
  have hlonger : (Path.mk (path.segments ++ [last])).kind = .document := by
    rw [Path.kind_concat]
    exact congrArg PathKind.other hkind
  have hcollection := Path.require_eq_ok_iff.2 ⟨hkind, rfl⟩
  have hdocument := Path.require_eq_ok_iff.2 ⟨hlonger, rfl⟩
  refine ⟨t.collectionUnion path, ?_, ?_, ?_, fun before hshorter hnothing => ?_⟩
  · exact congrArg (Except.map t.collectionUnion) hcollection
  · refine (congrArg (Except.map t.documentUnion) hdocument).trans (congrArg Except.ok ?_)
    rw [documentUnion, nodesAt_concat_of_isWildcard hkind hlast]
    rfl
  · rw [collectionUnion, unionOfDocuments_flatMap]
  · have hempty := reachedCollections_of_size (size_nodesAt_of_shorter hshorter hnothing)
    rw [collectionUnion, hempty]
    rfl

/-- The friends of any user, in a tree with a cycle. -/
def friendsPath : Path := ⟨[⟨"users", .literal⟩, .any, ⟨"friends", .literal⟩]⟩

theorem resolveCollection_eq_resolve_wildcard_friends : ∃ t u,
    ofGraph friendsGraph .default = .ok t ∧ friendsPath.kind = .collection ∧
      t.resolveCollection friendsPath = .ok u ∧
      t.resolve ⟨friendsPath.segments ++ [.any]⟩ = .ok u ∧ u.size = 2 := by
  obtain ⟨t, ht⟩ := ofGraph_friendsGraph
  have hsize : (ofGraph friendsGraph .default).toOption.map
      (fun t => (t.collectionUnion friendsPath).size) = some 2 := by decide +kernel
  obtain ⟨u, hcollection, hdocument, -, -⟩ :=
    resolveCollection_eq_resolve_wildcard t friendsPath rfl .any rfl
  obtain rfl : t.collectionUnion friendsPath = u := Except.ok.inj hcollection
  rw [ht] at hsize
  exact ⟨t, _, ht, rfl, hcollection, hdocument, Option.some.inj hsize⟩

end SchemaTree
end SchemaAtlas
