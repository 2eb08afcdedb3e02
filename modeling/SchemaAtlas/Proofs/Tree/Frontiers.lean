import Mathlib.Algebra.Order.BigOperators.Group.Finset
import SchemaAtlas.Proofs.Tree.Listing

/-!
# The frontiers of a search

A search for a collection group has a budget of levels, but it is not the budget that bounds its work.
A frontier consists of the documents of collections that the round before it expanded, so a frontier
that is not empty costs at least one collection, and none is expanded twice. On a tree with cycles the
same document may be in a frontier several times, under different keys, and the same collection may be
met any number of times; what is counted here is what the loop holds, one frontier after the other.
-/
namespace SchemaAtlas

namespace Collection

/-- A collection has no more documents than entries: the generic one has an entry of its own. -/
theorem length_labelled_le (c : Collection) : c.labelled.length ≤ c.entries.length := by
  have hsplit : c.literals.length +
      (c.entries.filter fun entry => c.isGenericKey entry.1).length = c.entries.length := by
    have hperm := List.filter_append_perm (fun entry => !c.isGenericKey entry.1) c.entries
    have hlength := hperm.length_eq
    simp only [Bool.not_not, List.length_append] at hlength
    exact hlength
  rw [labelled, List.length_append]
  cases hgeneric : c.generic? with
  | none =>
    show c.literals.length + 0 ≤ c.entries.length
    omega
  | some ref =>
    show c.literals.length + 1 ≤ c.entries.length
    obtain ⟨key, hkey, hlookup⟩ := Option.bind_eq_some_iff.1 hgeneric
    have hentry : (key, ref) ∈ c.entries.filter fun entry => c.isGenericKey entry.1 :=
      List.mem_filter.2 ⟨mem_of_lookup hlookup, isGenericKey_iff.2 hkey⟩
    have hpos := List.length_pos_of_mem hentry
    omega

end Collection

namespace SchemaTree

variable {t : SchemaTree}

/-! ### The loop -/

/--
The frontiers that the loop of a search is entered with, one after the other. With no level left the
loop is entered once more, only to find that it has to stop.
-/
def frontiers (t : SchemaTree) : (allowed : Nat) → (expanded : List Nat) →
    (frontier : List (Located DocumentRef)) → List (List (Located DocumentRef))
  | _, _, [] => []
  | 0, _, place :: places => [place :: places]
  | allowed + 1, expanded, place :: places =>
    (place :: places) :: t.frontiers allowed (t.expandedAfter expanded (place :: places))
      (t.frontierAfter expanded (place :: places))

/-- The frontiers of a search from the root, within so many levels. -/
def frontiersFromRoot (t : SchemaTree) (allowed : Nat) : List (List (Located DocumentRef)) :=
  t.frontiers allowed [] [⟨.root, []⟩]

@[simp] theorem frontiers_nil (allowed : Nat) (expanded : List Nat) :
    t.frontiers allowed expanded [] = [] := by
  rw [frontiers]

theorem frontiers_cons (allowed : Nat) (expanded : List Nat) (place : Located DocumentRef)
    (places : List (Located DocumentRef)) :
    t.frontiers (allowed + 1) expanded (place :: places) =
      (place :: places) :: t.frontiers allowed (t.expandedAfter expanded (place :: places))
        (t.frontierAfter expanded (place :: places)) := by
  rw [frontiers]

/-- The rounds are run on the frontiers there are levels for. -/
theorem met_eq_flatMap_frontiers (allowed : Nat) (expanded : List Nat)
    (frontier : List (Located DocumentRef)) :
    (t.rounds allowed expanded frontier).met =
      ((t.frontiers allowed expanded frontier).take allowed).flatMap t.edgesOf := by
  induction allowed, expanded, frontier using frontiers.induct t with
  | case1 allowed expanded => simp [rounds_nil]
  | case2 expanded place places => rfl
  | case3 allowed expanded place places ih =>
    rw [rounds_succ, frontiers_cons, List.take_succ_cons, List.flatMap_cons, ← ih]

/-- What is left unvisited is the frontier behind those that there are levels for. -/
theorem unvisited_eq_flatten_frontiers (allowed : Nat) (expanded : List Nat)
    (frontier : List (Located DocumentRef)) :
    (t.rounds allowed expanded frontier).unvisited =
      ((t.frontiers allowed expanded frontier).drop allowed).flatten := by
  induction allowed, expanded, frontier using frontiers.induct t with
  | case1 allowed expanded => simp [rounds_nil]
  | case2 expanded place places =>
    show place :: places = [place :: places].flatten
    simp
  | case3 allowed expanded place places ih =>
    rw [rounds_succ, frontiers_cons, List.drop_succ_cons, ← ih]

/-! ### What frontiers cost -/

/-- Documents are in the next frontier only if a round expands something. -/
theorem length_freshEdges_pos {expanded : List Nat} {frontier : List (Located DocumentRef)}
    (h : t.frontierAfter expanded frontier ≠ []) :
    0 < (freshEdges expanded (t.edgesOf frontier)).length := by
  apply List.length_pos_of_ne_nil
  intro hnone
  apply h
  rw [frontierAfter, hnone]
  rfl

/-- Every frontier but the first one costs a collection that was not expanded before. -/
theorem length_frontiers_le (allowed : Nat) (expanded : List Nat)
    (frontier : List (Located DocumentRef)) :
    (t.frontiers allowed expanded frontier).length ≤
      (t.rounds allowed expanded frontier).expanded.length + 1 := by
  induction allowed, expanded, frontier using frontiers.induct t with
  | case1 allowed expanded => simp
  | case2 expanded place places => exact Nat.le_refl 1
  | case3 allowed expanded place places ih =>
    rw [rounds_succ, frontiers_cons, List.length_cons, List.length_append]
    by_cases hlast : t.frontierAfter expanded (place :: places) = []
    · rw [hlast, frontiers_nil, List.length_nil]
      omega
    · have hfresh := length_freshEdges_pos hlast
      omega

/-- Behind its first frontier, a search goes through the documents of what it expands. -/
theorem flatten_frontiers (allowed : Nat) (expanded : List Nat)
    (frontier : List (Located DocumentRef)) :
    (t.frontiers allowed expanded frontier).flatten =
      frontier ++ (t.rounds allowed expanded frontier).expanded.flatMap t.documentsBelow := by
  induction allowed, expanded, frontier using frontiers.induct t with
  | case1 allowed expanded => simp [rounds_nil]
  | case2 expanded place places =>
    show [place :: places].flatten = place :: places ++ []
    simp
  | case3 allowed expanded place places ih =>
    rw [rounds_succ, frontiers_cons, List.flatten_cons, ih, List.flatMap_append]
    rfl

theorem length_documentsBelow_le (edge : Edge) :
    (t.documentsBelow edge).length ≤ (t.collection edge.collection).entries.length := by
  rw [documentsBelow, memberDocuments, List.length_map]
  exact (t.collection edge.collection).length_labelled_le

/-! ### Collections within reach -/

/-- Some document, on whatever way it stands below the root, holds a collection. -/
def InReach (t : SchemaTree) (id : Nat) : Prop :=
  ∃ level ref name, t.AtLevel level ref ∧ t.Holds ref name id

theorem nodup_expandedFromRoot (t : SchemaTree) (depth : Nat) :
    ((t.roundsFromRoot depth).expanded.map (·.collection)).Nodup :=
  (nodup_expanded depth [] [⟨.root, []⟩]).1

theorem inReach_of_expanded {depth : Nat} {edge : Edge}
    (h : edge ∈ (t.roundsFromRoot depth).expanded) : t.InReach edge.collection := by
  obtain ⟨level, -, ref, hlevel, hholds⟩ :=
    meets_roundsFromRoot.1 ⟨edge, met_of_expanded h, rfl, rfl⟩
  exact ⟨level, ref, edge.name, hlevel, hholds⟩

theorem mem_reachableCollections_iff {id : Nat} :
    id ∈ t.reachableCollections.map (·.collection) ↔ t.InReach id := by
  constructor
  · intro h
    obtain ⟨edge, hedge, rfl⟩ := List.mem_map.1 h
    rw [(reachableCollections_eq_expanded (Nat.lt_succ_self _)).2] at hedge
    exact inReach_of_expanded hedge
  · intro h
    obtain ⟨level, ref, name, hlevel, hholds⟩ := h
    exact mem_reachableCollections_of_holds hlevel hholds

section Reach

variable {reach : Finset Nat} (hreach : ∀ id, id ∈ reach ↔ t.InReach id)
include hreach

theorem expanded_subset_reach (depth : Nat) :
    ((t.roundsFromRoot depth).expanded.map (·.collection)).toFinset ⊆ reach := by
  intro id hid
  obtain ⟨edge, hedge, rfl⟩ := List.mem_map.1 (List.mem_toFinset.1 hid)
  exact (hreach _).2 (inReach_of_expanded hedge)

theorem length_expanded_le_card (depth : Nat) :
    (t.roundsFromRoot depth).expanded.length ≤ reach.card := by
  have hcard := Finset.card_le_card (expanded_subset_reach hreach depth)
  rw [List.toFinset_card_of_nodup (t.nodup_expandedFromRoot depth), List.length_map] at hcard
  exact hcard

theorem length_expandedDocuments_le (depth : Nat) :
    ((t.roundsFromRoot depth).expanded.flatMap t.documentsBelow).length ≤
      ∑ id ∈ reach, (t.collection id).entries.length := by
  calc ((t.roundsFromRoot depth).expanded.flatMap t.documentsBelow).length
      = ((t.roundsFromRoot depth).expanded.map fun edge => (t.documentsBelow edge).length).sum :=
        List.length_flatMap
    _ ≤ ((t.roundsFromRoot depth).expanded.map fun edge =>
          (t.collection edge.collection).entries.length).sum :=
        List.sum_le_sum fun edge _ => length_documentsBelow_le edge
    _ = ∑ id ∈ ((t.roundsFromRoot depth).expanded.map (·.collection)).toFinset,
          (t.collection id).entries.length := by
        rw [List.sum_toFinset _ (t.nodup_expandedFromRoot depth), List.map_map]
        rfl
    _ ≤ ∑ id ∈ reach, (t.collection id).entries.length :=
        Finset.sum_le_sum_of_subset (expanded_subset_reach hreach depth)

theorem length_frontiersFromRoot_le (depth : Nat) :
    (t.frontiersFromRoot depth).length ≤ reach.card + 1 := by
  have hfrontiers : (t.frontiersFromRoot depth).length ≤
      (t.roundsFromRoot depth).expanded.length + 1 := length_frontiers_le _ _ _
  have hexpanded := length_expanded_le_card hreach depth
  omega

theorem length_flatten_frontiersFromRoot_le (depth : Nat) :
    (t.frontiersFromRoot depth).flatten.length ≤
      1 + ∑ id ∈ reach, (t.collection id).entries.length := by
  have hflatten : (t.frontiersFromRoot depth).flatten =
      [⟨.root, []⟩] ++ (t.roundsFromRoot depth).expanded.flatMap t.documentsBelow :=
    flatten_frontiers _ _ _
  have hdocuments := length_expandedDocuments_le hreach depth
  rw [hflatten, List.length_append, List.length_singleton]
  omega

theorem unvisited_eq_nil_of_card_lt {depth : Nat} (h : reach.card < depth) :
    (t.roundsFromRoot depth).unvisited = [] := by
  have hlength := length_frontiersFromRoot_le hreach depth
  have hunvisited : (t.roundsFromRoot depth).unvisited =
      ((t.frontiersFromRoot depth).drop depth).flatten := unvisited_eq_flatten_frontiers _ _ _
  have hdrop : (t.frontiersFromRoot depth).drop depth = [] := by
    apply List.drop_eq_nil_of_le
    omega
  rw [hunvisited, hdrop]
  rfl

end Reach

theorem level_of_groupLog {name : String} {depth : Nat}
    (h : (t.roundsFromRoot depth).unvisited = []) {entry : LogEntry}
    (hentry : entry ∈ t.groupLog name depth) : entry.level ≠ .warning := by
  obtain rfl : entry = _ := by simpa [groupLog, h] using hentry
  simp

/--
A search for a collection group comes to an end by itself, whatever its depth. Its loop is entered
with at most one frontier more than there are collections within reach, it expands each of them at
most once, and all its frontiers together hold at most one document more than these collections have
entries. With more levels than collections no document is left for want of a level.
-/
theorem groupSearch_ends (t : SchemaTree) :
    ∃ reach : Finset Nat, (∀ id, id ∈ reach ↔ t.InReach id) ∧ ∀ (name : String) (depth : Nat),
      (t.roundsFromRoot depth).met =
        ((t.frontiersFromRoot depth).take depth).flatMap t.edgesOf ∧
      (t.roundsFromRoot depth).unvisited = ((t.frontiersFromRoot depth).drop depth).flatten ∧
      (t.frontiersFromRoot depth).length ≤ reach.card + 1 ∧
      ((t.roundsFromRoot depth).expanded.map (·.collection)).Nodup ∧
      (∀ edge ∈ (t.roundsFromRoot depth).expanded, edge.collection ∈ reach) ∧
      (t.frontiersFromRoot depth).flatten.length ≤
        1 + ∑ id ∈ reach, (t.collection id).entries.length ∧
      (reach.card < depth → (t.frontiersFromRoot depth).length ≤ depth ∧
        (t.roundsFromRoot depth).unvisited = [] ∧
        ∀ entry ∈ t.groupLog name depth, entry.level ≠ .warning) := by
  have hreach : ∀ id, id ∈ (t.reachableCollections.map (·.collection)).toFinset ↔ t.InReach id := by
    intro id
    rw [List.mem_toFinset]
    exact mem_reachableCollections_iff
  refine ⟨_, hreach, fun name depth => ⟨met_eq_flatMap_frontiers _ _ _,
    unvisited_eq_flatten_frontiers _ _ _, length_frontiersFromRoot_le hreach depth,
    t.nodup_expandedFromRoot depth, fun edge hedge => (hreach _).2 (inReach_of_expanded hedge),
    length_flatten_frontiersFromRoot_le hreach depth, fun hdepth => ?_⟩⟩
  have hlength := length_frontiersFromRoot_le hreach depth
  have hend := unvisited_eq_nil_of_card_lt hreach hdepth
  exact ⟨by omega, hend, fun entry => level_of_groupLog hend⟩

/--
Users whose friends are users again, and their logs: two collections, so no search of three levels or
more is cut short.
-/
theorem groupSearch_ends_friends : ∃ t, ofGraph friendsGraph .default = .ok t ∧
    ∃ reach : Finset Nat, (∀ id, id ∈ reach ↔ t.InReach id) ∧ reach.card = 2 ∧
      ∀ (name : String) (depth : Nat), 3 ≤ depth →
        (t.frontiersFromRoot depth).length ≤ 3 ∧ (t.roundsFromRoot depth).unvisited = [] ∧
          ∀ entry ∈ t.groupLog name depth, entry.level ≠ .warning := by
  obtain ⟨t, ht⟩ := ofGraph_friendsGraph
  obtain ⟨reach, hreach, hsearch⟩ := groupSearch_ends t
  have hlisted : reach = (t.reachableCollections.map (·.collection)).toFinset := by
    ext id
    rw [hreach, List.mem_toFinset, mem_reachableCollections_iff]
  have hexpanded : (ofGraph friendsGraph .default).toOption.map (fun t =>
      ((t.roundsFromRoot (t.collections.length + 1)).expanded).length) = some 2 := by
    decide +kernel
  rw [ht] at hexpanded
  have hcard : reach.card = 2 := by
    rw [hlisted, List.toFinset_card_of_nodup (nodup_reachableCollections t), List.length_map,
      (reachableCollections_eq_expanded (Nat.lt_succ_self _)).2]
    exact Option.some.inj hexpanded
  refine ⟨t, ht, reach, hreach, hcard, fun name depth hdepth => ?_⟩
  obtain ⟨-, -, hrounds, -, -, -, hend⟩ := hsearch name depth
  rw [hcard] at hrounds hend
  exact ⟨hrounds, (hend hdepth).2⟩

end SchemaTree
end SchemaAtlas
