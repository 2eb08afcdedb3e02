import SchemaAtlas.Proofs.Tree.GroupSearch

/-!
# Declared ways

A way leads from the root to a node by the declared keys: through a document by the name of one of
its collections, through a collection by the label of one of its entries. The same node may have any
number of ways, of any length where the tree has cycles. Names and labels alternate, so a way to a
document has two keys for every level of collections, and one to a collection has one key more.
-/
namespace SchemaAtlas

namespace Collection

/-- The label under which the document of a key is listed. -/
def label (c : Collection) (key : String) : String :=
  if c.isGenericKey key then genericLabel else key

/-- Under distinct keys there is one entry with a key, or none. -/
theorem filter_key_eq {entries : List (String × DocumentRef)} (h : (entries.map (·.1)).Nodup)
    (key : String) :
    (entries.filter fun entry => entry.1 = key) =
      ((entries.lookup key).map fun ref => (key, ref)).toList := by
  induction entries with
  | nil => rfl
  | cons entry rest ih =>
    obtain ⟨name, ref⟩ := entry
    obtain ⟨hnew, hrest⟩ := List.nodup_cons.1 h
    by_cases hkey : name = key
    · subst hkey
      have hnone : (rest.filter fun entry => entry.1 = name) = [] := by
        refine List.filter_eq_nil_iff.2 fun entry hentry hsame => hnew ?_
        exact List.mem_map.2 ⟨entry, hentry, of_decide_eq_true hsame⟩
      rw [List.filter_cons, if_pos (decide_eq_true rfl), hnone, List.lookup_cons_self]
      rfl
    · have hne : (key == name) = false := beq_eq_false_iff_ne.2 (Ne.symm hkey)
      rw [List.filter_cons, if_neg (by simpa using hkey), ih hrest, List.lookup_cons, hne]

theorem map_label_literals (c : Collection) :
    (c.literals.map fun entry => (c.label entry.1, entry.2)) = c.literals := by
  refine (List.map_congr_left fun entry hentry => ?_).trans (List.map_id c.literals)
  have hkey : c.isGenericKey entry.1 = false := by simpa using (List.mem_filter.1 hentry).2
  rw [label, hkey]
  rfl

theorem map_label_generic {c : Collection} (hc : (c.entries.map (·.1)).Nodup) :
    ((c.entries.filter fun entry => c.isGenericKey entry.1).map fun entry =>
      (c.label entry.1, entry.2)) = (c.generic?.map ((genericLabel, ·))).toList := by
  cases hkey : c.genericKey with
  | none => simp [isGenericKey, generic?, hkey]
  | some key =>
    have hgeneric : c.generic? = c.entries.lookup key := by
      rw [generic?, hkey]
      rfl
    have hfilter : (c.entries.filter fun entry => c.isGenericKey entry.1) =
        ((c.entries.lookup key).map fun ref => (key, ref)).toList := by
      rw [← filter_key_eq hc]
      refine List.filter_congr fun entry _ => decide_eq_decide.2 ?_
      rw [hkey, Option.some_inj, eq_comm]
    have hlabel : c.label key = genericLabel := if_pos (isGenericKey_iff.2 hkey)
    rw [hfilter, hgeneric]
    cases c.entries.lookup key with
    | none => rfl
    | some ref =>
      change [(c.label key, ref)] = [(genericLabel, ref)]
      rw [hlabel]

/-- Every entry is listed once, under its label. -/
theorem labelled_perm {c : Collection} (hc : (c.entries.map (·.1)).Nodup) :
    c.labelled.Perm (c.entries.map fun entry => (c.label entry.1, entry.2)) := by
  have hsplit := List.filter_append_perm (fun entry => !c.isGenericKey entry.1) c.entries
  have hmap := hsplit.map fun entry => (c.label entry.1, entry.2)
  simp only [Bool.not_not, List.map_append] at hmap
  rw [← literals, map_label_literals, map_label_generic hc] at hmap
  exact hmap

theorem mem_labelled_iff {c : Collection} (hc : (c.entries.map (·.1)).Nodup) {label : String}
    {ref : DocumentRef} :
    (label, ref) ∈ c.labelled ↔ ∃ key, (key, ref) ∈ c.entries ∧ c.label key = label := by
  rw [(labelled_perm hc).mem_iff, List.mem_map]
  constructor
  · intro h
    obtain ⟨⟨key, other⟩, hentry, heq⟩ := h
    obtain ⟨hlabel, rfl⟩ := Prod.mk.inj heq
    exact ⟨key, hentry, hlabel⟩
  · intro h
    obtain ⟨key, hentry, rfl⟩ := h
    exact ⟨_, hentry, rfl⟩

end Collection

namespace SchemaTree

variable {t : SchemaTree}

/-- The keys that lead from the root to a node. -/
inductive Way (t : SchemaTree) : List String → TreeNode → Prop
  | root : Way t [] (.document .root)
  | collection {keys ref name id} : Way t keys (.document ref) →
      (name, id) ∈ (t.document ref).collections → Way t (keys ++ [name]) (.collection id)
  | document {keys id key ref} : Way t keys (.collection id) →
      (key, ref) ∈ (t.collection id).entries →
        Way t (keys ++ [(t.collection id).label key]) (.document ref)

theorem member_iff_entry (ht : t.Distinct) {id : Nat} {ref : DocumentRef} :
    t.Member id ref ↔ ∃ key, (key, ref) ∈ (t.collection id).entries := by
  unfold Member
  simp only [Collection.mem_labelled_iff (ht.documents id)]
  exact ⟨fun h => h.elim fun _ h => h.imp fun _ h => h.1,
    fun h => h.elim fun key h => ⟨_, key, h, rfl⟩⟩

/-- A way to a collection comes from a document that holds it under the last key. -/
theorem Way.exists_last {keys : List String} {id : Nat} (h : t.Way keys (.collection id))
    {name : String} (hname : keys.getLast? = some name) :
    ∃ above ref, keys = above ++ [name] ∧ t.Way above (.document ref) ∧
      (name, id) ∈ (t.document ref).collections := by
  cases h with
  | collection hway hholds =>
    obtain rfl := Option.some.inj (List.getLast?_concat.symm.trans hname)
    exact ⟨_, _, rfl, hway, hholds⟩

/-- What a way of some length leads to stands at the level that its length says. -/
theorem Way.atLevel (ht : t.Distinct) {keys : List String} {node : TreeNode}
    (h : t.Way keys node) :
    match node with
    | .document ref => ∃ level, keys.length = 2 * level ∧ t.AtLevel level ref
    | .collection id => ∃ level ref name, keys.length = 2 * level + 1 ∧
        keys.getLast? = some name ∧ t.AtLevel level ref ∧ t.Holds ref name id := by
  induction h with
  | root => exact ⟨0, rfl, .root⟩
  | collection _ hholds ih =>
    obtain ⟨level, hlength, hlevel⟩ := ih
    refine ⟨level, _, _, ?_, List.getLast?_concat, hlevel, hholds⟩
    rw [List.length_append, hlength, List.length_singleton]
  | document _ hentry ih =>
    obtain ⟨level, ref, name, hlength, -, hlevel, hholds⟩ := ih
    refine ⟨level + 1, ?_, .inside hlevel hholds ((member_iff_entry ht).2 ⟨_, hentry⟩)⟩
    rw [List.length_append, hlength, List.length_singleton]
    omega

/-- A way leads to every document at a level. -/
theorem AtLevel.exists_way (ht : t.Distinct) {level : Nat} {ref : DocumentRef}
    (h : t.AtLevel level ref) : ∃ keys, keys.length = 2 * level ∧ t.Way keys (.document ref) := by
  induction h with
  | root => exact ⟨[], rfl, .root⟩
  | inside _ hholds hmember ih =>
    obtain ⟨keys, hlength, hway⟩ := ih
    obtain ⟨key, hentry⟩ := (member_iff_entry ht).1 hmember
    refine ⟨_, ?_, .document (.collection hway hholds) hentry⟩
    simp only [List.length_append, List.length_singleton, hlength]
    omega

end SchemaTree
end SchemaAtlas
