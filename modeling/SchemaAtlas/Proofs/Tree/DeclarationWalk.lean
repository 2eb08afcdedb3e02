import Mathlib.Data.List.Forall2
import SchemaAtlas.Proofs.Tree.Mirror

/-!
# Walks over a declaration

A declaration can be read without a tree: every segment of a path is looked up in the mappings
themselves, and nothing is remembered from one step to the next. Resolution in the tree finds the
same nodes by the same keys, and the same schemas with the same origins, also where mappings are
shared, refer back to an ancestor or serve as a collection and as a document.
-/
namespace SchemaAtlas

namespace Graph

/--
One segment of a walk over the mappings. A name that has no entry of its own stands for the generic
entry, as does the generic key itself.
-/
inductive Step (g : Graph) (keys : ReservedKeys) (segment : Segment) :
    Located TreeNode → Located TreeNode → Prop
  | rootCollection {walked name id} :
      (.text name, .node id) ∈ g.entriesOf (.document .root) → segment.Takes name →
      Step g keys segment ⟨.document .root, walked⟩ ⟨.collection id, walked ++ [name]⟩
  | collection {document walked name id} :
      (.text name, .node id) ∈ g.entriesOf (.document (.declared document)) →
      keys.schema ≠ some name → segment.Takes name →
      Step g keys segment ⟨.document (.declared document), walked⟩
        ⟨.collection id, walked ++ [name]⟩
  | ownEntry {id walked name part} : (.text name, part) ∈ g.entriesOf (.collection id) →
      keys.generic ≠ some name → segment.Takes name →
      Step g keys segment ⟨.collection id, walked⟩
        ⟨.document (Declaration.documentRef id name part), walked ++ [name]⟩
  | genericEntry {id walked key part} : (.text key, part) ∈ g.entriesOf (.collection id) →
      keys.generic = some key →
      (segment.Takes key ∨ ∀ other, (.text segment.text, other) ∉ g.entriesOf (.collection id)) →
      Step g keys segment ⟨.collection id, walked⟩
        ⟨.document (Declaration.documentRef id key part), walked ++ [genericLabel]⟩

/-- Whether segments lead from one place to another in the mappings. -/
def Leads (g : Graph) (keys : ReservedKeys) :
    List Segment → Located TreeNode → Located TreeNode → Prop
  | [], place, last => place = last
  | segment :: rest, place, last =>
    ∃ next, g.Step keys segment place next ∧ g.Leads keys rest next last

/-- An entry under a schema key and the field that it declares. -/
def DeclaresField (g : Graph) (entry : Value × Part) (field : String × FieldType) : Prop :=
  entry.1 = .text field.1 ∧ (g.unfold entry.2).declaredType = .ok field.2

/--
The schema of a document: the declared types of the fields under its schema key, if it has any.
-/
inductive SchemaAt (g : Graph) (keys : ReservedKeys) : DocumentRef → Schema → Prop
  | root : SchemaAt g keys .root Schema.empty
  | blank {id key} : SchemaAt g keys (.blank id key) Schema.empty
  | absent {id} : (∀ entry ∈ g.entriesOf (.document (.declared id)),
      keys.isSchemaKey entry.1 = false) → SchemaAt g keys (.declared id) Schema.empty
  | null {id key} : (key, .leaf .null) ∈ g.entriesOf (.document (.declared id)) →
      keys.isSchemaKey key = true → SchemaAt g keys (.declared id) Schema.empty
  | fields {id key part entries fields} :
      (key, part) ∈ g.entriesOf (.document (.declared id)) → keys.isSchemaKey key = true →
      g.entries? part = some entries → List.Forall₂ g.DeclaresField entries fields →
      SchemaAt g keys (.declared id) (Schema.ofList fields)

/-- A schema with the origin under which segments lead to it from the root. -/
def Finds (g : Graph) (keys : ReservedKeys) (segments : List Segment) (schema : Schema)
    (origin : String) : Prop :=
  ∃ ref walked declared, g.Leads keys segments SchemaTree.rootPlace ⟨.document ref, walked⟩ ∧
    g.SchemaAt keys ref declared ∧ declared.same schema = true ∧ origin = joinPath walked

end Graph

theorem isSchemaKey_text_eq_false {keys : ReservedKeys} {name : String} :
    keys.isSchemaKey (.text name) = false ↔ keys.schema ≠ some name := by
  unfold ReservedKeys.isSchemaKey
  cases keys.schema with
  | none => simp
  | some other => simp

/-! ### The schema of a mapping -/

namespace Declaration

variable {g : Graph} {keys : ReservedKeys}

theorem declaresField_of_schemaFields {location : List String} {entries : List (Value × Part)}
    {fields : List (String × FieldType)} (h : schemaFields g location entries = .ok fields) :
    List.Forall₂ g.DeclaresField entries fields := by
  induction entries generalizing fields with
  | nil =>
    obtain rfl := Except.ok.inj h
    exact .nil
  | cons entry rest ih =>
    obtain ⟨key, part⟩ := entry
    unfold schemaFields at h
    split at h
    · rename_i name
      split at h
      · cases h
      · split at h
        · cases h
        · rename_i type htype
          obtain ⟨others, hrest, rfl⟩ := exists_of_map_eq_ok h
          exact .cons ⟨rfl, htype⟩ (ih hrest)
    · cases h

theorem declaresField_rightUnique : Relator.RightUnique g.DeclaresField := by
  rintro entry ⟨name, type⟩ ⟨other, otherType⟩ ⟨hname, htype⟩ ⟨hother, hotherType⟩
  obtain rfl := Value.text.inj (hname.symm.trans hother)
  obtain rfl := Except.ok.inj (htype.symm.trans hotherType)
  rfl

theorem isNull_iff {part : Part} : Graph.isNull part = true ↔ part = .leaf .null := by
  unfold Graph.isNull
  split
  · simp
  · rename_i hne
    simpa using hne

theorem isSchemaKey_iff {key : Value} :
    keys.isSchemaKey key = true ↔ key = (keys.schema.map Value.text).getD .null := by
  unfold ReservedKeys.isSchemaKey
  cases keys.schema with
  | none => cases key <;> simp
  | some name =>
    cases key with
    | text other =>
      rw [beq_iff_eq, Option.map_some, Option.getD_some, Value.text.injEq]
      exact eq_comm
    | _ => simp

theorem sameKey_of_isSchemaKey {key other : Value} (hkey : keys.isSchemaKey key = true)
    (hother : keys.isSchemaKey other = true) : key.sameKey other = true := by
  rw [isSchemaKey_iff.1 hkey, isSchemaKey_iff.1 hother]
  cases keys.schema with
  | none => rfl
  | some name => exact beq_self_eq_true name

/-- Under distinct keys the schema key is found wherever it is. -/
theorem find?_isSchemaKey {entries : List (Value × Part)}
    (h : entries.Pairwise fun a b => a.1.sameKey b.1 = false) {entry : Value × Part}
    (hentry : entry ∈ entries) (hkey : keys.isSchemaKey entry.1 = true) :
    entries.find? (fun entry => keys.isSchemaKey entry.1) = some entry := by
  obtain ⟨before, after, rfl⟩ := List.append_of_mem hentry
  refine List.find?_eq_some_iff_append.2 ⟨hkey, before, after, rfl, fun other hother => ?_⟩
  rw [Bool.not_eq_true']
  refine Bool.eq_false_iff.2 fun hotherKey => ?_
  -- an earlier entry under the schema key would have the key of this one
  have hne := (List.pairwise_append.1 h).2.2 other hother entry List.mem_cons_self
  rw [sameKey_of_isSchemaKey hotherKey hkey] at hne
  cases hne

/-- The schema that building reads is the one that the mapping declares, and no other. -/
theorem schemaAt_declared_iff (hg : g.DistinctKeys) {id : Nat} {location : List String}
    {schema s : Schema}
    (h : schemaOf g keys location (g.entriesOf (.document (.declared id))) = .ok schema) :
    g.SchemaAt keys (.declared id) s ↔ s = schema := by
  have hdistinct := hg.entriesOf (.document (.declared id))
  constructor
  · intro hs
    unfold schemaOf at h
    cases hs with
    | absent hnone =>
      have hfind := List.find?_eq_none.2 fun entry hentry =>
        Bool.eq_false_iff.1 (hnone entry hentry)
      rw [hfind] at h
      exact Except.ok.inj h
    | null hentry hkey =>
      rw [find?_isSchemaKey hdistinct hentry hkey] at h
      exact Except.ok.inj h
    | @fields _ key part entries fields hentry hkey hentries hfields =>
      rw [find?_isSchemaKey hdistinct hentry hkey] at h
      have hnode : Graph.isNull part = false := by
        cases part with
        | leaf v => cases hentries
        | node => rfl
      simp only [hnode, hentries, Bool.false_eq_true, if_false] at h
      obtain ⟨others, hread, rfl⟩ := exists_of_map_eq_ok h
      have hsame := List.right_unique_forall₂' declaresField_rightUnique hfields
        (declaresField_of_schemaFields hread)
      rw [hsame]
  · rintro rfl
    unfold schemaOf at h
    split at h
    · rename_i hfind
      obtain rfl := Except.ok.inj h
      refine .absent fun entry hentry => ?_
      exact Bool.eq_false_iff.2 (List.find?_eq_none.1 hfind entry hentry)
    · rename_i key part hfind
      have hentry := List.mem_of_find?_eq_some hfind
      have hkey := List.find?_some hfind
      split at h
      · rename_i hnull
        obtain rfl := Except.ok.inj h
        obtain rfl := isNull_iff.1 hnull
        exact .null hentry hkey
      · split at h
        · cases h
        · rename_i fields hfields
          obtain ⟨declared, hread, rfl⟩ := exists_of_map_eq_ok h
          exact .fields hentry hkey hfields (declaresField_of_schemaFields hread)

end Declaration

namespace SchemaTree
namespace Mirrors

variable {t : SchemaTree} {g : Graph} {keys : ReservedKeys} {segment : Segment}
  {place next : Located TreeNode}

/-- Below a document of the tree a segment leads where it leads in the mappings. -/
theorem document_step_iff (ht : t.Mirrors g keys) (hg : g.DistinctKeys) {ref : DocumentRef}
    (hhas : t.Has (.document ref)) {walked : List String} :
    next ∈ t.childrenAt segment ⟨.document ref, walked⟩ ↔
      g.Step keys segment ⟨.document ref, walked⟩ next := by
  rw [mem_childrenAt_document (ht.distinct hg), ht.collections ref hhas]
  simp only [Declaration.mem_collectionIds]
  cases ref with
  | root =>
    constructor
    · intro h
      obtain ⟨name, id, htakes, hentry, rfl⟩ := h
      exact .rootCollection hentry htakes
    · intro h
      rcases h with ⟨hentry, htakes⟩
      exact ⟨_, _, htakes, hentry, rfl⟩
  | blank id key =>
    constructor
    · intro h
      obtain ⟨name, id, _, hentry, _⟩ := h
      exact absurd hentry List.not_mem_nil
    · intro hstep
      cases hstep
  | declared id =>
    have hkey : ∀ name part, (.text name, part) ∈ g.subcollectionsOf keys (.declared id) ↔
        (.text name, part) ∈ g.entriesOf (.document (.declared id)) ∧ keys.schema ≠ some name := by
      intro name part
      rw [Graph.subcollectionsOf, Declaration.subcollections, List.mem_filter, Bool.not_eq_true',
        isSchemaKey_text_eq_false]
    simp only [hkey]
    constructor
    · intro h
      obtain ⟨name, id, htakes, ⟨hentry, hne⟩, rfl⟩ := h
      exact .collection hentry hne htakes
    · intro hstep
      cases hstep with
      | collection hentry hne htakes => exact ⟨_, _, htakes, ⟨hentry, hne⟩, rfl⟩

theorem collection_step_iff (ht : t.Mirrors g keys) (hg : g.DistinctKeys) {id : Nat}
    (hhas : t.Has (.collection id)) {walked : List String} :
    next ∈ t.childrenAt segment ⟨.collection id, walked⟩ ↔
      g.Step keys segment ⟨.collection id, walked⟩ next := by
  rw [mem_childrenAt_collection (ht.distinct hg), ht.documents id hhas]
  have hgeneric : (Declaration.collectionOf keys id (g.entriesOf (.collection id))).genericKey =
      keys.generic := rfl
  rw [hgeneric, Declaration.forall_not_mem_collectionOf]
  simp only [Declaration.mem_collectionOf]
  constructor
  · rintro (⟨name, _, hkey, htakes, ⟨part, hentry, rfl⟩, rfl⟩ |
      ⟨key, _, hkey, htext, ⟨part, hentry, rfl⟩, rfl⟩)
    · exact .ownEntry hentry hkey htakes
    · exact .genericEntry hentry hkey htext
  · intro hstep
    cases hstep with
    | ownEntry hentry hkey htakes => exact .inl ⟨_, _, hkey, htakes, ⟨_, hentry, rfl⟩, rfl⟩
    | genericEntry hentry hkey htext => exact .inr ⟨_, _, hkey, htext, ⟨_, hentry, rfl⟩, rfl⟩

/-- One step: at a node of the tree a segment leads where it leads in the mappings. -/
theorem step_iff (ht : t.Mirrors g keys) (hg : g.DistinctKeys) (hhas : t.Has place.node) :
    next ∈ t.childrenAt segment place ↔ g.Step keys segment place next := by
  obtain ⟨node, walked⟩ := place
  cases node with
  | document ref => exact ht.document_step_iff hg hhas
  | collection id => exact ht.collection_step_iff hg hhas

/-- What a step leads to is in the tree again. -/
theorem has_of_step (ht : t.Mirrors g keys) (hhas : t.Has place.node)
    (hstep : g.Step keys segment place next) : t.Has next.node := by
  cases hstep with
  | rootCollection hentry _ =>
    obtain ⟨name, id, heq, _, hid⟩ := ht.collectionsHeld .root trivial _ hentry
    obtain ⟨_, hnode⟩ := Prod.mk.inj heq
    obtain rfl := Part.node.inj hnode
    exact hid
  | collection hentry hne _ =>
    obtain ⟨name, id, heq, _, hid⟩ := ht.collectionsHeld (.declared _) hhas _
      (List.mem_filter.2 ⟨hentry, by simpa using isSchemaKey_text_eq_false.2 hne⟩)
    obtain ⟨_, hnode⟩ := Prod.mk.inj heq
    obtain rfl := Part.node.inj hnode
    exact hid
  | ownEntry hentry _ _ | genericEntry hentry _ _ =>
    obtain ⟨name, hkey, _, hinner⟩ := ht.documentsHeld _ hhas _ hentry
    obtain rfl := Value.text.inj hkey
    exact hinner

/-- A whole walk: segments lead to the same places in the tree and in the mappings. -/
theorem leads_iff (ht : t.Mirrors g keys) (hg : g.DistinctKeys) {segments : List Segment}
    {last : Located TreeNode} (hhas : t.Has place.node) :
    t.Leads segments place last ↔ g.Leads keys segments place last := by
  induction segments generalizing place with
  | nil => exact Iff.rfl
  | cons segment rest ih =>
    constructor
    · intro h
      obtain ⟨next, hnext, hrest⟩ := h
      -- the walk stays in the tree, where both readings agree on every step
      have hstep := (ht.step_iff hg hhas).1 hnext
      exact ⟨next, hstep, (ih (ht.has_of_step hhas hstep)).1 hrest⟩
    · intro h
      obtain ⟨next, hstep, hrest⟩ := h
      exact ⟨next, (ht.step_iff hg hhas).2 hstep, (ih (ht.has_of_step hhas hstep)).2 hrest⟩

theorem has_of_leads (ht : t.Mirrors g keys) {segments : List Segment} {last : Located TreeNode}
    (hhas : t.Has place.node) (h : g.Leads keys segments place last) : t.Has last.node := by
  induction segments generalizing place with
  | nil =>
    obtain rfl : place = last := h
    exact hhas
  | cons segment rest ih =>
    obtain ⟨next, hstep, hrest⟩ := h
    exact ih (ht.has_of_step hhas hstep) hrest

theorem schemaAt_iff (ht : t.Mirrors g keys) (hg : g.DistinctKeys) {ref : DocumentRef}
    (hhas : t.Has (.document ref)) {s : Schema} :
    g.SchemaAt keys ref s ↔ s = (t.document ref).schema := by
  cases ref with
  | root =>
    rw [document, ht.rootSchema]
    constructor
    · intro hs
      cases hs
      rfl
    · rintro rfl
      exact .root
  | blank id key =>
    constructor
    · intro hs
      cases hs
      rfl
    · rintro rfl
      exact .blank
  | declared id =>
    obtain ⟨location, hschema⟩ := ht.schemas id hhas
    exact Declaration.schemaAt_declared_iff hg hschema

/-- Segments find the schemas of the documents that they lead to in the tree. -/
theorem finds_iff (ht : t.Mirrors g keys) (hg : g.DistinctKeys) {segments : List Segment}
    {schema : Schema} {origin : String} :
    g.Finds keys segments schema origin ↔
      ∃ ref walked, t.Leads segments rootPlace ⟨.document ref, walked⟩ ∧
        (t.document ref).schema.same schema = true ∧ origin = joinPath walked := by
  constructor
  · intro h
    obtain ⟨ref, walked, declared, hleads, hschema, hsame, horigin⟩ := h
    have hhas := ht.has_of_leads (has_root t) hleads
    obtain rfl := (ht.schemaAt_iff hg hhas).1 hschema
    exact ⟨ref, walked, (ht.leads_iff hg (has_root t)).2 hleads, hsame, horigin⟩
  · intro h
    obtain ⟨ref, walked, hleads, hsame, horigin⟩ := h
    have hraw := (ht.leads_iff hg (has_root t)).1 hleads
    have hhas := ht.has_of_leads (has_root t) hraw
    exact ⟨ref, walked, _, hraw, (ht.schemaAt_iff hg hhas).2 rfl, hsame, horigin⟩

end Mirrors

/--
Resolution in the tree of an accepted graph is the walk over the mappings. It ends at the same nodes
by the same keys, so two paths share a node exactly if they lead to one mapping in one role; and the
schemas with their origins are those that the mappings declare.
-/
theorem resolution_eq_declarationWalk (g : Graph) (hg : g.DistinctKeys) (keys : ReservedKeys)
    (t : SchemaTree) (h : ofGraph g keys = .ok t) (path : Path) :
    (∀ place, place ∈ (t.nodesAt path).places ↔ g.Leads keys path.segments rootPlace place) ∧
      (∀ other : Path, (∃ node walked walkedToo, ⟨node, walked⟩ ∈ (t.nodesAt path).places ∧
          ⟨node, walkedToo⟩ ∈ (t.nodesAt other).places) ↔
        ∃ node walked walkedToo, g.Leads keys path.segments rootPlace ⟨node, walked⟩ ∧
          g.Leads keys other.segments rootPlace ⟨node, walkedToo⟩) ∧
      (path.length % 2 = 0 → ∃ u, t.resolve path = .ok u ∧ u.isGeneric = false ∧
        ∀ s origin, u.HasOrigin s origin ↔ g.Finds keys path.segments s origin) ∧
      (path.length % 2 = 1 → ∃ u, t.resolveCollection path = .ok u ∧ u.isGeneric = false ∧
        ∀ s origin, u.HasOrigin s origin ↔
          g.Finds keys (path.segments ++ [.any]) s origin) := by
  have ht := ofGraph_mirrors h
  have hplaces : ∀ (p : Path) place,
      place ∈ (t.nodesAt p).places ↔ g.Leads keys p.segments rootPlace place := by
    intro p place
    rw [mem_nodesAt]
    exact ht.leads_iff hg (has_root t)
  refine ⟨hplaces path, fun other => ?_, fun heven => ?_, fun hodd => ?_⟩
  · simp only [hplaces]
  · refine ⟨t.documentUnion path, ?_, rfl, fun s origin => ?_⟩
    · rw [resolve, Path.require_document heven]
      rfl
    · rw [hasOrigin_documentUnion, ht.finds_iff hg]
  · refine ⟨t.collectionUnion path, ?_, rfl, fun s origin => ?_⟩
    · rw [resolveCollection, Path.require_collection hodd]
      rfl
    · rw [hasOrigin_collectionUnion, ht.finds_iff hg]

/-- Bob is no declared user, so he and his friends have the shape of any user. -/
theorem resolution_eq_declarationWalk_friends : ∃ t, ofGraph friendsGraph .default = .ok t ∧
    ⟨.document (.declared 2), ["users", genericLabel, "friends", genericLabel]⟩ ∈
      (t.nodesAt ⟨[⟨"users", .literal⟩, ⟨"bob", .literal⟩, ⟨"friends", .literal⟩,
        .any]⟩).places := by
  obtain ⟨t, ht⟩ := ofGraph_friendsGraph
  have hwalk := resolution_eq_declarationWalk friendsGraph distinctKeys_friendsGraph .default t ht
  refine ⟨t, ht, ((hwalk _).1 _).2 ?_⟩
  have husers : (.text "users", .node 1) ∈ friendsGraph.entriesOf (.document .root) :=
    .head _
  have huser : (.text "*", .node 2) ∈ friendsGraph.entriesOf (.collection 1) :=
    .tail _ (.tail _ (.head _))
  have hfriends : (.text "friends", .node 1) ∈ friendsGraph.entriesOf (.document (.declared 2)) :=
    .tail _ (.head _)
  have hbob : ∀ other, (.text "bob", other) ∉ friendsGraph.entriesOf (.collection 1) := by
    intro other hentry
    change _ ∈ [(Value.text "admin", Part.leaf .null), (.text "guest", .node 4),
      (.text "*", .node 2)] at hentry
    simp at hentry
  refine ⟨_, .rootCollection husers (.inr rfl), _, .genericEntry huser rfl (.inr hbob), ?_⟩
  refine ⟨_, .collection hfriends (by decide) (.inr rfl), _, ?_, rfl⟩
  exact .genericEntry huser rfl (.inl (.inl rfl))

end SchemaTree
end SchemaAtlas
