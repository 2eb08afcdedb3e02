import SchemaAtlas.Proofs.Query.Reachable
import SchemaAtlas.Proofs.Store.Calls

/-!
# What a store opens

The schemas that a store finds for a path or a collection group are made from declared ones, and so
are those of every query that its handles start.
-/
namespace SchemaAtlas

variable {Handle : Type}

namespace SchemaTree

theorem reachable_unionOfDocuments (t : SchemaTree) (places : List (Located DocumentRef)) :
    (t.unionOfDocuments places).Reachable :=
  .ofPairs _

theorem reachable_unionAt (t : SchemaTree) (path : Path) : (t.unionAt path).Reachable := by
  unfold unionAt
  split
  · exact t.reachable_unionOfDocuments _
  · exact t.reachable_unionOfDocuments _

end SchemaTree

theorem Action.reachable_of_collectionGroup {t : SchemaTree} {name : Value} {depth : Int}
    {u : SchemaUnion} {before after : Journal Handle}
    (h : (collectionGroup t name depth : Action Handle SchemaUnion).Returns before u after) :
    u.Reachable := by
  obtain ⟨name, _, -, h⟩ := returns_bind_iff.1 h
  obtain ⟨depth, _, -, h⟩ := returns_bind_iff.1 h
  rw [returns_report_bind_iff] at h
  obtain ⟨rfl, -⟩ := returns_pure_iff.1 h
  exact t.reachable_unionOfDocuments _

namespace QueryHandle

/-- The queries that a collection of a store or of a document, or a collection group, starts with. -/
inductive Base : QueryHandle Handle → Prop
  | collection {s : Store Handle} {segments : List Value} {c : CollectionHandle Handle}
    {before after : Journal Handle} (h : (s.collection segments).Returns before c after) :
    Base c.query
  | subcollection {d : DocumentHandle Handle} {name : Value} {c : CollectionHandle Handle}
    {before after : Journal Handle} (h : (d.collection name).Returns before c after) : Base c.query
  | collectionGroup {s : Store Handle} {name : Value} {q : QueryHandle Handle}
    {before after : Journal Handle} (h : (s.collectionGroup name).Returns before q after) : Base q

/-- Such a query has recorded nothing, and its schemas were made from declared ones. -/
theorem Base.fresh {q : QueryHandle Handle} (hq : q.Base) :
    q.schemas.Reachable ∧ q.predicates = [] ∧ q.selected = none := by
  cases hq with
  | @collection s _ _ _ after h =>
    rw [Store.collection_eq] at h
    obtain ⟨path, handle, -, -, -, -, rfl⟩ := Store.obtains_openAs_iff.1 ⟨after.entries, h⟩
    exact ⟨s.tree.reachable_unionAt path, rfl, rfl⟩
  | @subcollection d _ _ _ after h =>
    rw [DocumentHandle.collection_eq] at h
    obtain ⟨last, -, -, -, -, rfl, -⟩ := Store.obtains_openBelow_iff.1 ⟨after.entries, h⟩
    exact ⟨d.store.tree.reachable_unionAt _, rfl, rfl⟩
  | collectionGroup h =>
    obtain ⟨text, _, -, h⟩ := Action.returns_bind_iff.1 h
    obtain ⟨schemas, _, hschemas, h⟩ := Action.returns_bind_iff.1 h
    obtain ⟨handle, _, -, h⟩ := Action.returns_bind_iff.1 h
    obtain ⟨rfl, -⟩ := Action.returns_pure_iff.1 h
    exact ⟨Action.reachable_of_collectionGroup hschemas, rfl, rfl⟩

end QueryHandle

end SchemaAtlas
