import SchemaAtlas.Proofs.Tree.Walk

/-!
# Names in a tree

The names under which a tree holds its nodes: distinct in every collection and every document, never
empty and without a separator. Under distinct names an entry is what its name stands for. That a
declaration gives only such trees is shown where trees are built.
-/
namespace SchemaAtlas

/-- A text that can be a literal segment of a path. -/
def IsName (text : String) : Prop := text.isEmpty = false ∧ Path.hasSeparator text = false

theorem checkGroupName_of_isName {name : String} (h : IsName name) :
    Path.checkGroupName name = .ok name := by
  rw [Path.checkGroupName, h.1, h.2]
  rfl

/-- No name stands for two nodes of one document or collection. -/
structure SchemaTree.Distinct (t : SchemaTree) : Prop where
  collections : ∀ ref, ((t.document ref).collections.map (·.1)).Nodup
  documents : ∀ id, ((t.collection id).entries.map (·.1)).Nodup

structure SchemaTree.WellNamed (t : SchemaTree) : Prop extends t.Distinct where
  collectionNames : ∀ ref, ∀ entry ∈ (t.document ref).collections, IsName entry.1
  documentNames : ∀ id, ∀ entry ∈ (t.collection id).entries, IsName entry.1

theorem lookup_iff_mem {α : Type} {entries : List (String × α)}
    (h : (entries.map (·.1)).Nodup) {name : String} {value : α} :
    entries.lookup name = some value ↔ (name, value) ∈ entries :=
  ⟨mem_of_lookup, lookup_of_mem h⟩

theorem SchemaTree.Distinct.child?_iff {t : SchemaTree} (ht : t.Distinct) {ref : DocumentRef}
    {name : String} {id : Nat} :
    (t.document ref).child? name = some id ↔ (name, id) ∈ (t.document ref).collections :=
  lookup_iff_mem (ht.collections ref)

namespace Collection

theorem isGenericKey_iff {c : Collection} {key : String} :
    c.isGenericKey key = true ↔ c.genericKey = some key := by
  rw [isGenericKey, decide_eq_true_iff]

/-- A name stands for its own entry, or else for the generic document. -/
theorem resolve?_eq_some {c : Collection} {name label : String} {ref : DocumentRef} :
    c.resolve? name = some (label, ref) ↔
      label = name ∧ c.literal? name = some ref ∨
        label = genericLabel ∧ c.literal? name = none ∧ c.generic? = some ref := by
  rw [resolve?]
  cases c.literal? name with
  | some found => simp [eq_comm]
  | none =>
    cases c.generic? with
    | none => simp
    | some found => simp [eq_comm]

theorem generic?_eq_some {c : Collection} (hc : (c.entries.map (·.1)).Nodup) {ref : DocumentRef} :
    c.generic? = some ref ↔ ∃ key, c.genericKey = some key ∧ (key, ref) ∈ c.entries := by
  rw [generic?, Option.bind_eq_some_iff]
  exact exists_congr fun key => and_congr_right fun _ => lookup_iff_mem hc

theorem literal?_eq_some {c : Collection} (hc : (c.entries.map (·.1)).Nodup) {name : String}
    {ref : DocumentRef} :
    c.literal? name = some ref ↔ c.genericKey ≠ some name ∧ (name, ref) ∈ c.entries := by
  rw [literal?]
  split
  · rename_i hkey
    simp [isGenericKey_iff.1 hkey]
  · rename_i hkey
    rw [lookup_iff_mem hc, and_iff_right (mt isGenericKey_iff.2 hkey)]

theorem literal?_eq_none {c : Collection} (hc : (c.entries.map (·.1)).Nodup) {name : String} :
    c.literal? name = none ↔ c.genericKey = some name ∨ ∀ ref, (name, ref) ∉ c.entries := by
  rw [Option.eq_none_iff_forall_ne_some]
  simp only [ne_eq, literal?_eq_some hc, not_and]
  by_cases hkey : c.genericKey = some name
  · simp [hkey]
  · simp [hkey]

/-- Whatever entries there are, a name without one of its own stands for nothing of its own. -/
theorem literal?_eq_none_iff_not_mem {c : Collection} {name : String} :
    c.literal? name = none ↔ name ∉ c.literals.map (·.1) := by
  have hliterals : name ∈ c.literals.map (·.1) ↔
      c.isGenericKey name = false ∧ name ∈ c.entries.map (·.1) := by
    simp only [literals, List.mem_map, List.mem_filter, Bool.not_eq_true']
    constructor
    · rintro ⟨entry, ⟨hentry, hkey⟩, rfl⟩
      exact ⟨hkey, entry, hentry, rfl⟩
    · rintro ⟨hkey, entry, hentry, rfl⟩
      exact ⟨entry, ⟨hentry, hkey⟩, rfl⟩
  rw [hliterals, literal?]
  cases c.isGenericKey name with
  | true => exact iff_of_true rfl fun h => Bool.noConfusion h.1
  | false => rw [if_neg Bool.false_ne_true, lookup_eq_none_iff_not_mem, and_iff_right rfl]

theorem resolve?_eq_none_iff {c : Collection} {name : String} :
    c.resolve? name = none ↔ c.generic? = none ∧ name ∉ c.literals.map (·.1) := by
  rw [← literal?_eq_none_iff_not_mem, resolve?]
  cases c.literal? name with
  | some document => simp
  | none => simp

/-- Every document but the generic one is labelled by its own key. -/
theorem mem_labelled {c : Collection} (hc : (c.entries.map (·.1)).Nodup) {label : String}
    {ref : DocumentRef} :
    (label, ref) ∈ c.labelled ↔
      c.genericKey ≠ some label ∧ (label, ref) ∈ c.entries ∨
        label = genericLabel ∧ ∃ key, c.genericKey = some key ∧ (key, ref) ∈ c.entries := by
  have hliteral : (label, ref) ∈ c.literals ↔
      c.genericKey ≠ some label ∧ (label, ref) ∈ c.entries := by
    rw [literals, List.mem_filter, Bool.not_eq_true', ← Bool.not_eq_true, isGenericKey_iff,
      and_comm]
  rw [labelled, List.mem_append, hliteral, ← generic?_eq_some hc]
  cases c.generic? with
  | none => simp
  | some found => simp [eq_comm]

/-- The generic document is what its own key and every name without an entry stand for. -/
theorem resolve?_iff {c : Collection} (hc : (c.entries.map (·.1)).Nodup) {name label : String}
    {ref : DocumentRef} :
    c.resolve? name = some (label, ref) ↔
      label = name ∧ c.genericKey ≠ some name ∧ (name, ref) ∈ c.entries ∨
        label = genericLabel ∧ ∃ key, c.genericKey = some key ∧ (key, ref) ∈ c.entries ∧
          (name = key ∨ ∀ other, (name, other) ∉ c.entries) := by
  rw [resolve?_eq_some, literal?_eq_some hc, literal?_eq_none hc, generic?_eq_some hc]
  refine or_congr Iff.rfl (and_congr_right fun _ => ?_)
  constructor
  · intro h
    obtain ⟨hname, key, hkey, hentry⟩ := h
    refine ⟨key, hkey, hentry, ?_⟩
    rcases hname with hsame | hnone
    · exact .inl (Option.some.inj (hsame.symm.trans hkey))
    · exact .inr hnone
  · intro h
    obtain ⟨key, hkey, hentry, hname⟩ := h
    refine ⟨?_, key, hkey, hentry⟩
    rcases hname with rfl | hnone
    · exact .inl hkey
    · exact .inr hnone

end Collection

/-- Whether a segment can stand for a name. -/
def Segment.Takes (segment : Segment) (name : String) : Prop :=
  segment.isWildcard = true ∨ segment.text = name

namespace SchemaTree

theorem mem_childrenAt_document {t : SchemaTree} (ht : t.Distinct) {segment : Segment}
    {ref : DocumentRef} {walked : List String} {next : Located TreeNode} :
    next ∈ t.childrenAt segment ⟨.document ref, walked⟩ ↔
      ∃ name id, segment.Takes name ∧ (name, id) ∈ (t.document ref).collections ∧
        next = ⟨.collection id, walked ++ [name]⟩ := by
  unfold Segment.Takes
  cases h : segment.isWildcard with
  | true =>
    rw [mem_childrenAt_document_wildcard h]
    simp
  | false =>
    rw [mem_childrenAt_document_name h]
    constructor
    · intro h
      obtain ⟨id, hchild, rfl⟩ := h
      exact ⟨segment.text, id, .inr rfl, ht.child?_iff.1 hchild, rfl⟩
    · intro h
      obtain ⟨name, id, hfalse | rfl, hentry, rfl⟩ := h
      · cases hfalse
      · exact ⟨id, ht.child?_iff.2 hentry, rfl⟩

theorem mem_childrenAt_collection {t : SchemaTree} (ht : t.Distinct) {segment : Segment}
    {id : Nat} {walked : List String} {next : Located TreeNode} :
    next ∈ t.childrenAt segment ⟨.collection id, walked⟩ ↔
      (∃ name ref, (t.collection id).genericKey ≠ some name ∧ segment.Takes name ∧
        (name, ref) ∈ (t.collection id).entries ∧ next = ⟨.document ref, walked ++ [name]⟩) ∨
      ∃ key ref, (t.collection id).genericKey = some key ∧
        (segment.Takes key ∨ ∀ other, (segment.text, other) ∉ (t.collection id).entries) ∧
        (key, ref) ∈ (t.collection id).entries ∧
        next = ⟨.document ref, walked ++ [genericLabel]⟩ := by
  have hc := ht.documents id
  unfold Segment.Takes
  cases h : segment.isWildcard with
  | true =>
    rw [mem_childrenAt_collection_wildcard h]
    simp only [Collection.mem_labelled hc]
    constructor
    · intro h
      obtain ⟨label, ref, ⟨hkey, hentry⟩ | ⟨rfl, key, hkey, hentry⟩, rfl⟩ := h
      · exact .inl ⟨label, ref, hkey, .inl trivial, hentry, rfl⟩
      · exact .inr ⟨key, ref, hkey, .inl (.inl trivial), hentry, rfl⟩
    · intro h
      rcases h with ⟨name, ref, hkey, _, hentry, rfl⟩ | ⟨key, ref, hkey, _, hentry, rfl⟩
      · exact ⟨name, ref, .inl ⟨hkey, hentry⟩, rfl⟩
      · exact ⟨genericLabel, ref, .inr ⟨rfl, key, hkey, hentry⟩, rfl⟩
  | false =>
    rw [mem_childrenAt_collection_name h]
    simp only [Collection.resolve?_iff hc, Bool.false_eq_true, false_or]
    constructor
    · intro h
      obtain ⟨label, ref, ⟨rfl, hkey, hentry⟩ | ⟨rfl, key, hkey, hentry, htext⟩, rfl⟩ := h
      · exact .inl ⟨_, ref, hkey, rfl, hentry, rfl⟩
      · exact .inr ⟨key, ref, hkey, htext, hentry, rfl⟩
    · intro h
      rcases h with ⟨name, ref, hkey, rfl, hentry, rfl⟩ | ⟨key, ref, hkey, htext, hentry, rfl⟩
      · exact ⟨_, ref, .inl ⟨rfl, hkey, hentry⟩, rfl⟩
      · exact ⟨genericLabel, ref, .inr ⟨rfl, key, hkey, hentry, htext⟩, rfl⟩

end SchemaTree
end SchemaAtlas
