import Mathlib.Data.List.Forall2
import SchemaAtlas.Proofs.Tree.Mirror

/-!
# Wildcards as substitutions

A wildcard takes exactly the places that names take, each for some name in its position. The names
may differ from one wildcard of a path to the next, and the same name may stand for an entry in one
collection and for the generic document in another.
-/
namespace SchemaAtlas

/-- What can stand for a segment: a name for a wildcard, and only itself for any other. -/
def Segment.Instance (segment concrete : Segment) : Prop :=
  if segment.isWildcard then concrete.isWildcard = false ∧ IsName concrete.text
  else concrete = segment

/-- The path with a name in place of every wildcard. -/
def Path.Instance (path concrete : Path) : Prop :=
  List.Forall₂ Segment.Instance path.segments concrete.segments

namespace SchemaTree

theorem childrenAt_wildcard_iff {t : SchemaTree} (ht : t.WellNamed) {segment : Segment}
    (h : segment.isWildcard = true) {place next : Located TreeNode} :
    next ∈ t.childrenAt segment place ↔
      ∃ name, IsName name ∧ next ∈ t.childrenAt ⟨name, .literal⟩ place := by
  obtain ⟨node, walked⟩ := place
  cases node with
  | document ref =>
    simp only [mem_childrenAt_document ht.toDistinct]
    constructor
    · intro h
      obtain ⟨name, id, _, hentry, rfl⟩ := h
      exact ⟨name, ht.collectionNames ref _ hentry, name, id, .inr rfl, hentry, rfl⟩
    · intro h
      obtain ⟨_, _, name, id, _, hentry, rfl⟩ := h
      exact ⟨name, id, .inl h, hentry, rfl⟩
  | collection id =>
    simp only [mem_childrenAt_collection ht.toDistinct]
    constructor
    · intro h
      rcases h with ⟨name, ref, hkey, _, hentry, rfl⟩ | ⟨key, ref, hkey, _, hentry, rfl⟩
      · have hname := ht.documentNames id _ hentry
        exact ⟨name, hname, .inl ⟨name, ref, hkey, .inr rfl, hentry, rfl⟩⟩
      -- the generic key is itself a name, and stands for the generic document
      · have hname := ht.documentNames id _ hentry
        exact ⟨key, hname, .inr ⟨key, ref, hkey, .inl (.inr rfl), hentry, rfl⟩⟩
    · intro h
      obtain ⟨_, _, ⟨name, ref, hkey, _, hentry, rfl⟩ | ⟨key, ref, hkey, _, hentry, rfl⟩⟩ := h
      · exact .inl ⟨name, ref, hkey, .inl h, hentry, rfl⟩
      · exact .inr ⟨key, ref, hkey, .inl (.inl h), hentry, rfl⟩

/-- One step: a segment leads where its instances lead. -/
theorem childrenAt_iff_instance {t : SchemaTree} (ht : t.WellNamed) {segment : Segment}
    {place next : Located TreeNode} :
    next ∈ t.childrenAt segment place ↔
      ∃ concrete, segment.Instance concrete ∧ next ∈ t.childrenAt concrete place := by
  unfold Segment.Instance
  cases h : segment.isWildcard with
  | false => simp
  | true =>
    rw [childrenAt_wildcard_iff ht h]
    constructor
    · intro h
      obtain ⟨name, hname, hnext⟩ := h
      exact ⟨⟨name, .literal⟩, ⟨rfl, hname⟩, hnext⟩
    · intro h
      obtain ⟨⟨name, kind⟩, ⟨hliteral, hname⟩, hnext⟩ := h
      obtain rfl : kind = .literal := by
        cases kind with
        | literal => rfl
        | wildcard => simp [Segment.isWildcard] at hliteral
      exact ⟨name, hname, hnext⟩

/-- A whole walk: segments lead where their instances lead, chosen one by one. -/
theorem leads_iff_instance {t : SchemaTree} (ht : t.WellNamed) {segments : List Segment}
    {place last : Located TreeNode} :
    t.Leads segments place last ↔
      ∃ concrete, List.Forall₂ Segment.Instance segments concrete ∧
        t.Leads concrete place last := by
  induction segments generalizing place with
  | nil =>
    constructor
    · exact fun h => ⟨[], .nil, h⟩
    · intro h
      obtain ⟨concrete, hconcrete, h⟩ := h
      cases hconcrete
      exact h
  | cons segment rest ih =>
    constructor
    · intro h
      obtain ⟨next, hnext, hrest⟩ := h
      obtain ⟨first, hfirst, hstep⟩ := (childrenAt_iff_instance ht).1 hnext
      obtain ⟨others, hothers, hleads⟩ := ih.1 hrest
      exact ⟨first :: others, .cons hfirst hothers, next, hstep, hleads⟩
    · intro h
      obtain ⟨concrete, hconcrete, h⟩ := h
      cases hconcrete with
      | cons hfirst hothers =>
        obtain ⟨next, hstep, hleads⟩ := h
        exact ⟨next, (childrenAt_iff_instance ht).2 ⟨_, hfirst, hstep⟩, ih.2 ⟨_, hothers, hleads⟩⟩

/--
The nodes of a path, with the keys that lead to them, are those of all paths that have names in
place of its wildcards, taken together.
-/
theorem nodesAt_eq_instances (t : SchemaTree) (ht : t.WellNamed) (path : Path)
    (place : Located TreeNode) :
    place ∈ (t.nodesAt path).places ↔
      ∃ concrete, path.Instance concrete ∧ place ∈ (t.nodesAt concrete).places := by
  rw [mem_nodesAt, leads_iff_instance ht]
  constructor
  · intro h
    obtain ⟨segments, hsegments, h⟩ := h
    exact ⟨⟨segments⟩, hsegments, mem_nodesAt.2 h⟩
  · intro h
    obtain ⟨concrete, hconcrete, h⟩ := h
    exact ⟨concrete.segments, hconcrete, mem_nodesAt.1 h⟩

/-- In a tree with a cycle: the users' friends of any user, and any document among them. -/
theorem nodesAt_eq_instances_friends : ∃ t, ofGraph friendsGraph .default = .ok t ∧
    t.WellNamed ∧ ∀ place,
      place ∈ (t.nodesAt ⟨[⟨"users", .literal⟩, .any, ⟨"friends", .literal⟩,
          .any]⟩).places ↔
        ∃ concrete, (Path.mk [⟨"users", .literal⟩, .any, ⟨"friends", .literal⟩,
          .any]).Instance concrete ∧ place ∈ (t.nodesAt concrete).places := by
  obtain ⟨t, ht⟩ := ofGraph_friendsGraph
  have hnamed := (ofGraph_mirrors ht).wellNamed distinctKeys_friendsGraph
  exact ⟨t, ht, hnamed, nodesAt_eq_instances t hnamed _⟩

end SchemaTree
end SchemaAtlas
