import SchemaAtlas.Tree.Traversal

/-!
# Listing all collections

Every collection that can be reached from the root, once, in the order in which a queue of documents
meets them. A collection is marked when it is met, and only a collection met for the first time puts
its documents into the queue, so the listing ends on trees that refer to themselves.
-/
namespace SchemaAtlas.SchemaTree

/-- The number of declared collections that are not in a list. -/
def unseenCount (t : SchemaTree) (seen : List Nat) : Nat :=
  (t.collections.filter fun entry => !seen.contains entry.1).length

/-- What a longer list lacks, its end lacks. -/
theorem not_contains_of_append {more seen : List Nat} {id : Nat}
    (h : (!(more ++ seen).contains id) = true) : (!seen.contains id) = true := by
  rw [List.contains_append, Bool.not_or, Bool.and_eq_true] at h
  exact h.2

theorem length_filter_not_mem_append_le (entries : List (Nat × Collection)) (more seen : List Nat) :
    (entries.filter fun entry => !(more ++ seen).contains entry.1).length ≤
      (entries.filter fun entry => !seen.contains entry.1).length := by
  rw [← List.countP_eq_length_filter, ← List.countP_eq_length_filter]
  exact List.countP_mono_left fun _ _ h => not_contains_of_append h

theorem length_filter_not_mem_append_lt {entries : List (Nat × Collection)} {more seen : List Nat}
    {entry : Nat × Collection} (hentry : entry ∈ entries) (hmore : entry.1 ∈ more)
    (hseen : entry.1 ∉ seen) :
    (entries.filter fun entry => !(more ++ seen).contains entry.1).length <
      (entries.filter fun entry => !seen.contains entry.1).length := by
  have hnew : (!(more ++ seen).contains entry.1) = false := by
    rw [List.contains_append, List.contains_iff_mem.2 hmore, Bool.true_or, Bool.not_true]
  have hold : (!seen.contains entry.1) = true := by
    rw [Bool.not_eq_true', ← Bool.not_eq_true, List.contains_iff_mem]
    exact hseen
  obtain ⟨before, after, rfl⟩ := List.append_of_mem hentry
  have hbefore := length_filter_not_mem_append_le before more seen
  have hafter := length_filter_not_mem_append_le after more seen
  rw [List.filter_append, List.filter_append, List.filter_cons, List.filter_cons,
    if_neg (by rw [hnew]; exact Bool.false_ne_true), if_pos hold, List.length_append,
    List.length_append, List.length_cons]
  omega

theorem not_mem_of_mem_freshEdges {seen : List Nat} {edges : List Edge} {edge : Edge}
    (h : edge ∈ freshEdges seen edges) : edge.collection ∉ seen := by
  induction edges generalizing seen with
  | nil => cases h
  | cons first rest ih =>
    unfold freshEdges at h
    split at h
    · exact ih h
    · rename_i hs
      cases h with
      | head => simpa using hs
      | tail _ hmem => exact fun hseen => ih hmem (List.mem_cons_of_mem _ hseen)

/-- A collection that holds documents is declared in the tree. -/
theorem lookup_of_documentsBelow_ne_nil {t : SchemaTree} {edge : Edge}
    (h : t.documentsBelow edge ≠ []) : ∃ c, t.collections.lookup edge.collection = some c := by
  cases hc : t.collections.lookup edge.collection with
  | some c => exact ⟨c, rfl⟩
  | none =>
    refine absurd ?_ h
    simp [documentsBelow, memberDocuments, collection, hc, Collection.labelled,
      Collection.literals, Collection.generic?, Collection.empty]

/--
Meeting collections for the first time leaves fewer unseen ones, unless they hold no documents.
-/
theorem unseenCount_lt_or_nil (t : SchemaTree) (seen : List Nat) (edges : List Edge) :
    t.unseenCount ((freshEdges seen edges).map (·.collection) ++ seen) < t.unseenCount seen ∨
      t.unseenCount ((freshEdges seen edges).map (·.collection) ++ seen) = t.unseenCount seen ∧
        (freshEdges seen edges).flatMap t.documentsBelow = [] := by
  by_cases h : (freshEdges seen edges).flatMap t.documentsBelow = []
  · rcases Nat.lt_or_eq_of_le (length_filter_not_mem_append_le t.collections
      ((freshEdges seen edges).map (·.collection)) seen) with hlt | heq
    · exact .inl hlt
    · exact .inr ⟨heq, h⟩
  · refine .inl ?_
    obtain ⟨edge, hedge, hne⟩ : ∃ edge ∈ freshEdges seen edges, t.documentsBelow edge ≠ [] := by
      simpa [List.flatMap_eq_nil_iff] using h
    obtain ⟨c, hc⟩ := lookup_of_documentsBelow_ne_nil hne
    exact length_filter_not_mem_append_lt (mem_of_lookup hc)
      (List.mem_map_of_mem hedge) (not_mem_of_mem_freshEdges hedge)

/-- The collections met from a queue of documents, without those already seen. -/
def collectionsFrom (t : SchemaTree) (seen : List Nat) (queue : List (Located DocumentRef)) :
    List Edge :=
  match queue with
  | [] => []
  | place :: rest =>
    let fresh := freshEdges seen (t.edgesOf [place])
    fresh ++ t.collectionsFrom (fresh.map (·.collection) ++ seen)
      (rest ++ fresh.flatMap t.documentsBelow)
termination_by (t.unseenCount seen, queue.length)
decreasing_by
  rcases t.unseenCount_lt_or_nil seen (t.edgesOf [place]) with hlt | ⟨heq, hnil⟩
  · exact Prod.Lex.left _ _ hlt
  · rw [heq, hnil]
    exact Prod.Lex.right _ (by simp)

/--
Every collection that can be reached, once, under the keys of the way on which it is first met.
-/
def reachableCollections (t : SchemaTree) : List Edge :=
  t.collectionsFrom [] [⟨.root, []⟩]

end SchemaAtlas.SchemaTree
