import SchemaAtlas.Proofs.Tree.Building
import SchemaAtlas.Proofs.Tree.Walk

/-!
# The tree of an accepted graph

Node by node, an accepted graph and its tree say the same, and whatever a node of the tree holds is
in the tree. With distinct keys in the mappings, the nodes of the tree stand under well-formed
names.
-/
namespace SchemaAtlas

namespace Declaration

theorem mem_namedEntries {entries : List (Value × Part)} {name : String} {part : Part} :
    (name, part) ∈ namedEntries entries ↔ (.text name, part) ∈ entries := by
  rw [namedEntries, List.mem_filterMap]
  constructor
  · intro h
    obtain ⟨⟨key, other⟩, hentry, h⟩ := h
    cases key with
    | text text =>
      obtain ⟨rfl, rfl⟩ := Prod.mk.inj (Option.some.inj h)
      exact hentry
    | _ => cases h
  · exact fun h => ⟨_, h, rfl⟩

theorem mem_collectionIds {entries : List (Value × Part)} {name : String} {id : Nat} :
    (name, id) ∈ collectionIds entries ↔ (.text name, .node id) ∈ entries := by
  rw [collectionIds, List.mem_filterMap, ← mem_namedEntries]
  constructor
  · intro h
    obtain ⟨⟨other, part⟩, hentry, h⟩ := h
    cases part with
    | leaf v => cases h
    | node n =>
      obtain ⟨rfl, rfl⟩ := Prod.mk.inj (Option.some.inj h)
      exact hentry
  · exact fun h => ⟨_, h, rfl⟩

theorem mem_collectionOf {keys : ReservedKeys} {id : Nat} {entries : List (Value × Part)}
    {name : String} {ref : DocumentRef} :
    (name, ref) ∈ (collectionOf keys id entries).entries ↔
      ∃ part, (.text name, part) ∈ entries ∧ ref = documentRef id name part := by
  rw [collectionOf, List.mem_map]
  constructor
  · intro h
    obtain ⟨⟨other, part⟩, hentry, h⟩ := h
    obtain ⟨rfl, rfl⟩ := Prod.mk.inj h
    exact ⟨part, mem_namedEntries.1 hentry, rfl⟩
  · intro h
    obtain ⟨part, hentry, rfl⟩ := h
    exact ⟨_, mem_namedEntries.2 hentry, rfl⟩

theorem forall_not_mem_collectionOf {keys : ReservedKeys} {id : Nat}
    {entries : List (Value × Part)} {name : String} :
    (∀ ref, (name, ref) ∉ (collectionOf keys id entries).entries) ↔
      ∀ part, (.text name, part) ∉ entries := by
  constructor
  · exact fun h part hentry => h _ (mem_collectionOf.2 ⟨part, hentry, rfl⟩)
  · intro h ref href
    obtain ⟨part, hentry, _⟩ := mem_collectionOf.1 href
    exact h part hentry

end Declaration

open Declaration

/-- The entries of the mapping that a node is made from. -/
def Graph.entriesOf (g : Graph) : TreeNode → List (Value × Part)
  | .document .root => (g.entries? g.root).getD []
  | .document (.blank _ _) => []
  | .document (.declared id) | .collection id => entriesUnder g id

/-- Those of a document's entries that are collections: in the root all of them. -/
def Graph.subcollectionsOf (g : Graph) (keys : ReservedKeys) : DocumentRef → List (Value × Part)
  | .declared id => subcollections keys (g.entriesOf (.document (.declared id)))
  | ref => g.entriesOf (.document ref)

/-- A node that needs no place in the register, or has one. -/
def SchemaTree.Has (t : SchemaTree) : TreeNode → Prop
  | .document (.declared id) => id ∈ t.documents.map (·.1)
  | .document _ => True
  | .collection id => id ∈ t.collections.map (·.1)

theorem SchemaTree.has_root (t : SchemaTree) : t.Has rootPlace.node := trivial

/-- A tree that is node by node what the mappings say, and closed under their entries. -/
structure SchemaTree.Mirrors (t : SchemaTree) (g : Graph) (keys : ReservedKeys) : Prop where
  collections : ∀ ref, t.Has (.document ref) →
    (t.document ref).collections = collectionIds (g.subcollectionsOf keys ref)
  documents : ∀ id, t.Has (.collection id) →
    t.collection id = collectionOf keys id (g.entriesOf (.collection id))
  schemas : ∀ id, t.Has (.document (.declared id)) → ∃ location,
    schemaOf g keys location (g.entriesOf (.document (.declared id))) =
      .ok (t.document (.declared id)).schema
  collectionsHeld : ∀ ref, t.Has (.document ref) → ∀ entry ∈ g.subcollectionsOf keys ref,
    ∃ name id, entry = (.text name, .node id) ∧ IsName name ∧ t.Has (.collection id)
  documentsHeld : ∀ id, t.Has (.collection id) → ∀ entry ∈ g.entriesOf (.collection id),
    ∃ name, entry.1 = .text name ∧ IsName name ∧ t.Has (.document (documentRef id name entry.2))
  rootSchema : t.root.schema = Schema.empty

namespace SchemaTree

/-- An accepted graph and its tree say the same at every node. -/
theorem ofGraph_mirrors {g : Graph} {keys : ReservedKeys} {t : SchemaTree}
    (h : ofGraph g keys = .ok t) : t.Mirrors g keys := by
  obtain ⟨entries, p, hroot, rfl, hinv, hsettled⟩ := ofGraph_eq_ok h
  have hfaithful := hinv.faithful
  have hentries : g.entriesOf (.document .root) = entries := by
    rw [Graph.entriesOf, hroot, Option.getD_some]
  refine ⟨?_, ?_, ?_, ?_, ?_, rfl⟩
  · intro ref hhas
    cases ref with
    | root => exact congrArg collectionIds hentries.symm
    | blank => rfl
    | declared id =>
      obtain ⟨_, _, _, _, hd⟩ := hfaithful.lookup_document hhas
      rw [document, hd, Option.getD_some]
      rfl
  · intro id hhas
    rw [collection, (hfaithful.lookup_collection hhas).2, Option.getD_some]
    rfl
  · intro id hhas
    obtain ⟨_, location, _, hschema, hd⟩ := hfaithful.lookup_document hhas
    refine ⟨location, ?_⟩
    rw [document, hd, Option.getD_some]
    exact hschema
  · intro ref hhas entry hentry
    cases ref with
    | root => exact (hsettled entry (hentries ▸ hentry)).collection
    | blank => exact absurd hentry List.not_mem_nil
    | declared id =>
      have he := (hfaithful.lookup_document hhas).1
      exact (hinv.settled (.collection hhas he hentry)).collection
  · intro id hhas entry hentry
    have he := (hfaithful.lookup_collection hhas).1
    obtain ⟨name, hkey, hname, hpart⟩ := (hinv.settled (.document hhas he hentry)).document
    refine ⟨name, hkey, hname, ?_⟩
    rcases hpart with hnull | ⟨inner, hnode, hinner⟩
    · rw [hnull]
      trivial
    · rw [hnode]
      exact hinner

end SchemaTree

def Node.DistinctKeys : Node → Prop
  | .mapping entries => entries.Pairwise fun a b => a.1.sameKey b.1 = false
  | .sequence _ _ => True

/-- No mapping has one key twice. -/
def Graph.DistinctKeys (g : Graph) : Prop := ∀ node ∈ g.nodes.toList, node.DistinctKeys

instance : DecidablePred Node.DistinctKeys
  | .mapping entries =>
    inferInstanceAs (Decidable (entries.Pairwise fun a b => a.1.sameKey b.1 = false))
  | .sequence _ _ => inferInstanceAs (Decidable True)

instance : DecidablePred Graph.DistinctKeys := fun g =>
  inferInstanceAs (Decidable (∀ node ∈ g.nodes.toList, node.DistinctKeys))

theorem Graph.DistinctKeys.entries? {g : Graph} (h : g.DistinctKeys) {part : Part}
    {entries : List (Value × Part)} (he : g.entries? part = some entries) :
    entries.Pairwise fun a b => a.1.sameKey b.1 = false := by
  unfold Graph.entries? at he
  split at he
  · cases he
  · split at he
    · rename_i found hnode
      obtain rfl := Option.some.inj he
      exact h _ (Array.mem_toList_iff.2 (Array.mem_of_getElem? hnode))
    · cases he

theorem Graph.DistinctKeys.entriesOf {g : Graph} (h : g.DistinctKeys) (node : TreeNode) :
    (g.entriesOf node).Pairwise fun a b => a.1.sameKey b.1 = false := by
  have hpart : ∀ part, ((g.entries? part).getD []).Pairwise fun a b => a.1.sameKey b.1 = false := by
    intro part
    cases he : g.entries? part with
    | none => exact List.Pairwise.nil
    | some entries => exact h.entries? he
  cases node with
  | document ref =>
    cases ref with
    | root => exact hpart g.root
    | blank => exact List.Pairwise.nil
    | declared id => exact hpart (.node id)
  | collection id => exact hpart (.node id)

theorem Graph.DistinctKeys.subcollectionsOf {g : Graph} (h : g.DistinctKeys) (keys : ReservedKeys)
    (ref : DocumentRef) :
    (g.subcollectionsOf keys ref).Pairwise fun a b => a.1.sameKey b.1 = false := by
  cases ref with
  | root => exact h.entriesOf (.document .root)
  | blank => exact List.Pairwise.nil
  | declared id => exact (h.entriesOf (.document (.declared id))).filter _

theorem Declaration.nodup_namedEntries {entries : List (Value × Part)}
    (h : entries.Pairwise fun a b => a.1.sameKey b.1 = false) :
    ((namedEntries entries).map (·.1)).Nodup := by
  unfold List.Nodup namedEntries
  rw [List.pairwise_map, List.pairwise_filterMap]
  refine h.imp ?_
  rintro ⟨key, part⟩ ⟨other, otherPart⟩ hkeys named hnamed otherNamed hother heq
  cases key with
  | text name =>
    cases other with
    | text otherName =>
      obtain rfl := Option.some.inj hnamed
      obtain rfl := Option.some.inj hother
      obtain rfl : name = otherName := heq
      simp [Value.sameKey] at hkeys
    | _ => cases hother
  | _ => cases hnamed

theorem Declaration.nodup_collectionIds {entries : List (Value × Part)}
    (h : entries.Pairwise fun a b => a.1.sameKey b.1 = false) :
    ((collectionIds entries).map (·.1)).Nodup := by
  unfold List.Nodup collectionIds
  rw [List.pairwise_map, List.pairwise_filterMap]
  refine (List.pairwise_map.1 (nodup_namedEntries h)).imp ?_
  rintro ⟨name, part⟩ ⟨other, otherPart⟩ hne found hfound otherFound hother
  cases part with
  | leaf v => cases hfound
  | node id =>
    cases otherPart with
    | leaf v => cases hother
    | node otherId =>
      obtain rfl := Option.some.inj hfound
      obtain rfl := Option.some.inj hother
      exact hne

theorem Declaration.nodup_collectionOf {keys : ReservedKeys} {id : Nat}
    {entries : List (Value × Part)}
    (h : entries.Pairwise fun a b => a.1.sameKey b.1 = false) :
    ((collectionOf keys id entries).entries.map (·.1)).Nodup := by
  rw [collectionOf, List.map_map]
  exact nodup_namedEntries h

namespace SchemaTree

theorem document_of_not_has {t : SchemaTree} {ref : DocumentRef} (h : ¬t.Has (.document ref)) :
    t.document ref = Document.empty := by
  cases ref with
  | root | blank => exact absurd trivial h
  | declared id => rw [document, lookup_eq_none_iff_not_mem.2 h, Option.getD_none]

theorem collection_of_not_has {t : SchemaTree} {id : Nat} (h : ¬t.Has (.collection id)) :
    t.collection id = Collection.empty := by
  rw [collection, lookup_eq_none_iff_not_mem.2 h, Option.getD_none]

/-- A tree that mirrors a graph with distinct keys has its nodes under distinct names. -/
theorem Mirrors.distinct {g : Graph} {keys : ReservedKeys} {t : SchemaTree}
    (ht : t.Mirrors g keys) (hg : g.DistinctKeys) : t.Distinct := by
  constructor
  · intro ref
    by_cases hhas : t.Has (.document ref)
    · rw [ht.collections ref hhas]
      exact nodup_collectionIds (hg.subcollectionsOf keys ref)
    · rw [document_of_not_has hhas]
      exact List.nodup_nil
  · intro id
    by_cases hhas : t.Has (.collection id)
    · rw [ht.documents id hhas]
      exact nodup_collectionOf (hg.entriesOf (.collection id))
    · rw [collection_of_not_has hhas]
      exact List.nodup_nil

/-- Every name in a tree that mirrors a graph was checked. -/
theorem Mirrors.wellNamed {g : Graph} {keys : ReservedKeys} {t : SchemaTree}
    (ht : t.Mirrors g keys) (hg : g.DistinctKeys) : t.WellNamed := by
  refine ⟨ht.distinct hg, ?_, ?_⟩
  · intro ref entry hentry
    by_cases hhas : t.Has (.document ref)
    · rw [ht.collections ref hhas] at hentry
      have hkey := mem_collectionIds.1 hentry
      obtain ⟨name, _, heq, hname, _⟩ := ht.collectionsHeld ref hhas _ hkey
      obtain rfl := Value.text.inj (Prod.mk.inj heq).1
      exact hname
    · rw [document_of_not_has hhas] at hentry
      exact absurd hentry List.not_mem_nil
  · intro id entry hentry
    by_cases hhas : t.Has (.collection id)
    · rw [ht.documents id hhas] at hentry
      obtain ⟨part, hkey, _⟩ := mem_collectionOf.1 hentry
      obtain ⟨name, heq, hname, _⟩ := ht.documentsHeld id hhas _ hkey
      obtain rfl := Value.text.inj heq
      exact hname
    · rw [collection_of_not_has hhas] at hentry
      exact absurd hentry List.not_mem_nil

end SchemaTree

/--
Users with friends, who are users again; the log of a user is a collection made from the same
mapping as the guest, who is a document.
-/
def friendsGraph : Graph where
  nodes := #[.mapping [(.text "users", .node 1)],
    .mapping [(.text "admin", .leaf .null), (.text "guest", .node 4), (.text "*", .node 2)],
    .mapping [(.text "$schema", .node 3), (.text "friends", .node 1), (.text "logs", .node 4)],
    .mapping [(.text "name", .leaf (.text "string"))],
    .mapping []]
  root := .node 0

theorem distinctKeys_friendsGraph : friendsGraph.DistinctKeys := by decide

theorem ofGraph_friendsGraph : ∃ t, SchemaTree.ofGraph friendsGraph .default = .ok t :=
  exists_eq_ok_of_isOk (by decide +kernel)

end SchemaAtlas
