import SchemaAtlas.Proofs.Tree.Ways
import SchemaAtlas.Tree.Listing

/-!
# The queue and the rounds

The listing of all collections works through a queue of documents, the search for a group through
rounds. Both expand a collection when they meet it first. A queue takes the documents of a round
before those that the round puts behind them, so the listing is what enough rounds expand: every
collection that can be reached, once, in rounds from the root, and along a shortest way.
-/
namespace SchemaAtlas.SchemaTree

variable {t : SchemaTree}

/-! ### First meetings -/

/-- Which edges are fresh depends on what is expanded, not on the order in which it was. -/
theorem freshEdges_congr {expanded others : List Nat} (h : ∀ id, id ∈ expanded ↔ id ∈ others)
    (edges : List Edge) : freshEdges expanded edges = freshEdges others edges := by
  induction edges generalizing expanded others with
  | nil => rfl
  | cons edge rest ih =>
    have hcontains : expanded.contains edge.collection = others.contains edge.collection := by
      rw [Bool.eq_iff_iff, List.contains_iff_mem, List.contains_iff_mem, h]
    have hcons : ∀ id, id ∈ edge.collection :: expanded ↔ id ∈ edge.collection :: others := by
      intro id
      rw [List.mem_cons, List.mem_cons, h]
    rw [freshEdges, freshEdges, hcontains, ih h, ih hcons]

theorem freshEdges_append (expanded : List Nat) (edges more : List Edge) :
    freshEdges expanded (edges ++ more) =
      freshEdges expanded edges ++
        freshEdges ((freshEdges expanded edges).map (·.collection) ++ expanded) more := by
  induction edges generalizing expanded with
  | nil => rfl
  | cons edge rest ih =>
    rw [List.cons_append, freshEdges, freshEdges]
    split
    · exact ih expanded
    · rw [ih, List.cons_append, List.map_cons, List.cons_append]
      refine congrArg _ (congrArg _ (freshEdges_congr (fun id => ?_) more))
      rw [List.mem_append, List.mem_cons, List.mem_cons, List.mem_append, or_left_comm]

theorem nodup_freshEdges (expanded : List Nat) (edges : List Edge) :
    ((freshEdges expanded edges).map (·.collection)).Nodup := by
  induction edges generalizing expanded with
  | nil => exact List.nodup_nil
  | cons edge rest ih =>
    rw [freshEdges]
    split
    · exact ih expanded
    · rw [List.map_cons, List.nodup_cons]
      refine ⟨fun h => ?_, ih _⟩
      obtain ⟨other, hother, hsame⟩ := List.mem_map.1 h
      exact not_mem_of_mem_freshEdges hother (hsame ▸ List.mem_cons_self)

/-! ### The queue, round by round -/

theorem collectionsFrom_nil (seen : List Nat) : t.collectionsFrom seen [] = [] := by
  rw [collectionsFrom]

theorem collectionsFrom_cons (seen : List Nat) (place : Located DocumentRef)
    (rest : List (Located DocumentRef)) :
    t.collectionsFrom seen (place :: rest) =
      freshEdges seen (t.edgesOf [place]) ++
        t.collectionsFrom (t.expandedAfter seen [place])
          (rest ++ t.frontierAfter seen [place]) := by
  rw [collectionsFrom]
  rfl

theorem collectionsFrom_congr {seen others : List Nat} (h : ∀ id, id ∈ seen ↔ id ∈ others)
    (queue : List (Located DocumentRef)) :
    t.collectionsFrom seen queue = t.collectionsFrom others queue := by
  induction seen, queue using collectionsFrom.induct t generalizing others with
  | case1 seen => rw [collectionsFrom_nil, collectionsFrom_nil]
  | case2 seen place rest fresh =>
    rename_i ih
    have hfresh := freshEdges_congr h (t.edgesOf [place])
    have hafter : ∀ id,
        id ∈ t.expandedAfter seen [place] ↔ id ∈ t.expandedAfter others [place] := by
      intro id
      rw [expandedAfter, expandedAfter, hfresh, List.mem_append, List.mem_append, h]
    have hfrontier : t.frontierAfter others [place] = t.frontierAfter seen [place] := by
      rw [frontierAfter, frontierAfter, hfresh]
    rw [collectionsFrom_cons, collectionsFrom_cons, hfrontier, ← hfresh]
    exact congrArg _ (ih hafter)

theorem expandedAfter_cons (expanded : List Nat) (place : Located DocumentRef)
    (rest : List (Located DocumentRef)) (id : Nat) :
    id ∈ t.expandedAfter (t.expandedAfter expanded [place]) rest ↔
      id ∈ t.expandedAfter expanded (place :: rest) := by
  have hsplit : t.edgesOf (place :: rest) = t.edgesOf [place] ++ t.edgesOf rest := by
    simp [edgesOf]
  unfold expandedAfter
  rw [hsplit, freshEdges_append]
  simp only [List.mem_append, List.map_append]
  tauto

/--
A queue takes all documents in front of it, as one round, before those behind them; what the round
meets first is put at the end.
-/
theorem collectionsFrom_append (seen : List Nat) (frontier later : List (Located DocumentRef)) :
    t.collectionsFrom seen (frontier ++ later) =
      freshEdges seen (t.edgesOf frontier) ++
        t.collectionsFrom (t.expandedAfter seen frontier)
          (later ++ t.frontierAfter seen frontier) := by
  induction frontier generalizing seen later with
  | nil =>
    have hfrontier : t.frontierAfter seen [] = [] := rfl
    rw [hfrontier, List.append_nil]
    rfl
  | cons place rest ih =>
    have hsplit : t.edgesOf (place :: rest) = t.edgesOf [place] ++ t.edgesOf rest := by
      simp [edgesOf]
    have hfresh : freshEdges seen (t.edgesOf (place :: rest)) =
        freshEdges seen (t.edgesOf [place]) ++
          freshEdges (t.expandedAfter seen [place]) (t.edgesOf rest) := by
      rw [hsplit, freshEdges_append]
      rfl
    have hfrontier : t.frontierAfter seen (place :: rest) =
        t.frontierAfter seen [place] ++ t.frontierAfter (t.expandedAfter seen [place]) rest := by
      rw [frontierAfter, hfresh, List.flatMap_append]
      rfl
    rw [List.cons_append, collectionsFrom_cons, List.append_assoc, ih, hfresh, hfrontier,
      List.append_assoc, List.append_assoc]
    exact congrArg _ (congrArg _ (collectionsFrom_congr (expandedAfter_cons seen place rest) _))

/-- Rounds come to an end: every one but the last meets collections for the first time. -/
theorem unvisited_eq_nil {allowed : Nat} {expanded : List Nat}
    {frontier : List (Located DocumentRef)} (h : t.unseenCount expanded < allowed) :
    (t.rounds allowed expanded frontier).unvisited = [] := by
  induction allowed generalizing expanded frontier with
  | zero => exact absurd h (Nat.not_lt_zero _)
  | succ allowed ih =>
    rw [rounds_succ]
    rcases t.unseenCount_lt_or_nil expanded (t.edgesOf frontier) with hlt | ⟨-, hnil⟩
    · exact ih (Nat.lt_of_lt_of_le hlt (Nat.le_of_lt_succ h))
    · have hfrontier : t.frontierAfter expanded frontier = [] := hnil
      rw [hfrontier, rounds_nil]

/-- A queue lists what rounds expand, if they leave nothing unvisited. -/
theorem collectionsFrom_eq_expanded {allowed : Nat} {seen : List Nat}
    {frontier : List (Located DocumentRef)}
    (h : (t.rounds allowed seen frontier).unvisited = []) :
    t.collectionsFrom seen frontier = (t.rounds allowed seen frontier).expanded := by
  induction allowed generalizing seen frontier with
  | zero =>
    obtain rfl : frontier = [] := h
    exact collectionsFrom_nil seen
  | succ allowed ih =>
    rw [rounds_succ] at h ⊢
    have hround := collectionsFrom_append (t := t) seen frontier []
    rw [List.append_nil, List.nil_append] at hround
    rw [hround, ih h]

/-- The number of declared collections bounds the rounds that are needed. -/
theorem reachableCollections_eq_expanded {allowed : Nat} (h : t.collections.length < allowed) :
    (t.roundsFromRoot allowed).unvisited = [] ∧
      t.reachableCollections = (t.roundsFromRoot allowed).expanded := by
  have hunseen : t.unseenCount [] < allowed :=
    Nat.lt_of_le_of_lt (List.length_filter_le _ _) h
  have hend : (t.roundsFromRoot allowed).unvisited = [] := unvisited_eq_nil hunseen
  exact ⟨hend, collectionsFrom_eq_expanded hend⟩

/-! ### What rounds expand -/

theorem nodup_expanded (allowed : Nat) (expanded : List Nat)
    (frontier : List (Located DocumentRef)) :
    ((t.rounds allowed expanded frontier).expanded.map (·.collection)).Nodup ∧
      ∀ edge ∈ (t.rounds allowed expanded frontier).expanded, edge.collection ∉ expanded := by
  induction allowed generalizing expanded frontier with
  | zero => exact ⟨List.nodup_nil, fun _ h => absurd h List.not_mem_nil⟩
  | succ allowed ih =>
    obtain ⟨hnodup, hnew⟩ :=
      ih (t.expandedAfter expanded frontier) (t.frontierAfter expanded frontier)
    rw [rounds_succ, List.map_append]
    constructor
    · refine List.nodup_append.2 ⟨nodup_freshEdges _ _, hnodup, fun id hid other hother hsame => ?_⟩
      obtain ⟨edge, hedge, rfl⟩ := List.mem_map.1 hother
      exact hnew edge hedge (List.mem_append_left _ (hsame ▸ hid))
    · intro edge hedge
      rcases List.mem_append.1 hedge with hfresh | hlater
      · exact not_mem_of_mem_freshEdges hfresh
      · exact fun hold => hnew edge hlater (List.mem_append_right _ hold)

theorem met_of_expanded {allowed : Nat} {expanded : List Nat}
    {frontier : List (Located DocumentRef)} {edge : Edge}
    (h : edge ∈ (t.rounds allowed expanded frontier).expanded) :
    edge ∈ (t.rounds allowed expanded frontier).met := by
  induction allowed generalizing expanded frontier with
  | zero => exact h
  | succ allowed ih =>
    rw [rounds_succ] at h ⊢
    rcases List.mem_append.1 h with hfresh | hlater
    · exact List.mem_append_left _ (mem_of_mem_freshEdges hfresh)
    · exact List.mem_append_right _ (ih hlater)

/-- What rounds meet is expanded in the end. -/
theorem expanded_of_met {allowed : Nat} {expanded : List Nat}
    {frontier : List (Located DocumentRef)} {edge : Edge}
    (h : edge ∈ (t.rounds allowed expanded frontier).met) :
    edge.collection ∈
      (t.rounds allowed expanded frontier).expanded.map (·.collection) ++ expanded := by
  induction allowed generalizing expanded frontier with
  | zero => exact absurd h List.not_mem_nil
  | succ allowed ih =>
    rw [rounds_succ] at h ⊢
    rw [List.map_append, List.append_assoc, List.mem_append]
    rcases List.mem_append.1 h with hnow | hlater
    · rcases List.mem_append.1 (@mem_expanded_or_fresh expanded _ _ hnow) with hfresh | hold
      · exact .inl hfresh
      · exact .inr (List.mem_append_right _ hold)
    · rcases List.mem_append.1 (ih hlater) with hin | hafter
      · exact .inr (List.mem_append_left _ hin)
      · rcases List.mem_append.1 hafter with hfresh | hold
        · exact .inl hfresh
        · exact .inr (List.mem_append_right _ hold)

/--
The invariant of the search with the ways it goes: besides what it covers, every document of an
earlier level was in a frontier before, and the frontier stands at ways of its own level.
-/
structure Levelled (t : SchemaTree) (level : Nat) (seen : DocumentRef → Prop) (expanded : List Nat)
    (frontier : List (Located DocumentRef)) : Prop
    extends Covered t level seen expanded frontier where
  passed : ∀ k < level, ∀ ref, t.AtLevel k ref → seen ref
  ways : ∀ place ∈ frontier,
    t.Way place.keys (.document place.node) ∧ place.keys.length = 2 * level

theorem levelled_start : Levelled t 0 (fun _ => False) [] [⟨.root, []⟩] := by
  refine ⟨covered_start, fun k hk => absurd hk (Nat.not_lt_zero k), fun place hplace => ?_⟩
  obtain rfl := List.mem_singleton.1 hplace
  exact ⟨.root, rfl⟩

/-- An edge that is met goes one key further than the document that holds it. -/
theorem Levelled.way_of_edge {level : Nat} {seen : DocumentRef → Prop} {expanded : List Nat}
    {frontier : List (Located DocumentRef)} (h : Levelled t level seen expanded frontier)
    {edge : Edge} (hedge : edge ∈ t.edgesOf frontier) :
    t.Way edge.keys (.collection edge.collection) ∧ edge.keys.length = 2 * level + 1 ∧
      edge.keys.getLast? = some edge.name := by
  obtain ⟨place, hplace, hbelow⟩ := List.mem_flatMap.1 hedge
  obtain ⟨entry, hentry, rfl⟩ := List.mem_map.1 hbelow
  obtain ⟨hway, hlength⟩ := h.ways place hplace
  refine ⟨.collection hway hentry, ?_, List.getLast?_concat⟩
  rw [List.length_append, hlength, List.length_singleton]

/-- A round keeps the invariant. -/
theorem Levelled.next (ht : t.Distinct) {level : Nat} {seen : DocumentRef → Prop}
    {expanded : List Nat} {frontier : List (Located DocumentRef)}
    (h : Levelled t level seen expanded frontier) :
    Levelled t (level + 1) (fun ref => seen ref ∨ InFrontier frontier ref)
      (t.expandedAfter expanded frontier) (t.frontierAfter expanded frontier) := by
  refine ⟨h.toCovered.next, fun k hk ref href => ?_, fun place hplace => ?_⟩
  · rcases Nat.lt_succ_iff_lt_or_eq.1 hk with hearlier | rfl
    · exact .inl (h.passed k hearlier ref href)
    · exact h.reached ref href
  · obtain ⟨edge, hedge, hbelow⟩ := List.mem_flatMap.1 hplace
    obtain ⟨⟨label, ref⟩, hlabel, rfl⟩ := List.mem_map.1 hbelow
    obtain ⟨hway, hlength, -⟩ := h.way_of_edge (mem_of_mem_freshEdges hedge)
    obtain ⟨key, hentry, rfl⟩ := (Collection.mem_labelled_iff (ht.documents _)).1 hlabel
    refine ⟨.document hway hentry, ?_⟩
    rw [List.length_append, hlength, List.length_singleton]
    omega

/-- A collection that was not expanded before a level is held by no document of an earlier one. -/
theorem Levelled.le_of_not_mem {level : Nat} {seen : DocumentRef → Prop} {expanded : List Nat}
    {frontier : List (Located DocumentRef)} (h : Levelled t level seen expanded frontier) {id : Nat}
    (hid : id ∉ expanded) {k : Nat} {ref : DocumentRef} {name : String} (href : t.AtLevel k ref)
    (hholds : t.Holds ref name id) : level ≤ k := by
  by_contra hlt
  exact hid (h.held ref name id (h.passed k (Nat.lt_of_not_le hlt) ref href) hholds)

/-- The place of an edge in the search: a shortest way to its collection, in a round of its own. -/
structure FirstMet (t : SchemaTree) (level : Nat) (edge : Edge) : Prop where
  way : t.Way edge.keys (.collection edge.collection)
  length_eq : edge.keys.length = 2 * level + 1
  name_eq : edge.keys.getLast? = some edge.name
  earliest : ∀ k ref name, t.AtLevel k ref → t.Holds ref name edge.collection → level ≤ k

theorem Levelled.firstMet_fresh {level : Nat} {seen : DocumentRef → Prop}
    {expanded : List Nat} {frontier : List (Located DocumentRef)}
    (h : Levelled t level seen expanded frontier) {edge : Edge}
    (hedge : edge ∈ freshEdges expanded (t.edgesOf frontier)) : FirstMet t level edge := by
  obtain ⟨hway, hlength, hname⟩ := h.way_of_edge (mem_of_mem_freshEdges hedge)
  refine ⟨hway, hlength, hname, fun k ref name href hholds => ?_⟩
  exact h.le_of_not_mem (not_mem_of_mem_freshEdges hedge) href hholds

/-- Whatever some rounds expand is met first in one of them. -/
theorem Levelled.firstMet (ht : t.Distinct) {level : Nat} {seen : DocumentRef → Prop}
    {expanded : List Nat} {frontier : List (Located DocumentRef)}
    (h : Levelled t level seen expanded frontier) {allowed : Nat} {edge : Edge}
    (hedge : edge ∈ (t.rounds allowed expanded frontier).expanded) :
    ∃ k, level ≤ k ∧ k < level + allowed ∧ FirstMet t k edge := by
  induction allowed generalizing level seen expanded frontier with
  | zero => exact absurd hedge List.not_mem_nil
  | succ allowed ih =>
    rw [rounds_succ] at hedge
    rcases List.mem_append.1 hedge with hfresh | hlater
    · exact ⟨level, Nat.le_refl _, by omega, h.firstMet_fresh hfresh⟩
    · obtain ⟨k, hle, hlt, hfirst⟩ := ih (h.next ht) hlater
      exact ⟨k, by omega, by omega, hfirst⟩

/-- Rounds expand shorter ways before longer ones. -/
theorem Levelled.pairwise_length (ht : t.Distinct) {level : Nat} {seen : DocumentRef → Prop}
    {expanded : List Nat} {frontier : List (Located DocumentRef)}
    (h : Levelled t level seen expanded frontier) (allowed : Nat) :
    (t.rounds allowed expanded frontier).expanded.Pairwise fun a b =>
      a.keys.length ≤ b.keys.length := by
  induction allowed generalizing level seen expanded frontier with
  | zero => exact .nil
  | succ allowed ih =>
    rw [rounds_succ]
    have hfresh : ∀ edge ∈ freshEdges expanded (t.edgesOf frontier),
        edge.keys.length = 2 * level + 1 := fun edge hedge => (h.firstMet_fresh hedge).length_eq
    refine List.pairwise_append.2 ⟨?_, ih (h.next ht), fun a ha b hb => ?_⟩
    · refine List.pairwise_of_forall_mem_list fun a ha b hb => ?_
      exact Nat.le_of_eq ((hfresh a ha).trans (hfresh b hb).symm)
    · obtain ⟨k, hle, -, hfirst⟩ := (h.next ht).firstMet ht hb
      rw [hfresh a ha, hfirst.length_eq]
      omega

/-- An edge is expanded by any number of rounds that is above the one in which it is met first. -/
theorem Levelled.expanded_of_lt (ht : t.Distinct) {level : Nat} {seen : DocumentRef → Prop}
    {expanded : List Nat} {frontier : List (Located DocumentRef)}
    (h : Levelled t level seen expanded frontier) {allowed fewer : Nat} {edge : Edge}
    (hedge : edge ∈ (t.rounds allowed expanded frontier).expanded)
    (hlength : edge.keys.length < 2 * (level + fewer)) :
    edge ∈ (t.rounds fewer expanded frontier).expanded := by
  induction allowed generalizing level seen expanded frontier fewer with
  | zero => exact absurd hedge List.not_mem_nil
  | succ allowed ih =>
    obtain ⟨k, hle, -, hfirst⟩ := h.firstMet ht hedge
    have hlengthEq := hfirst.length_eq
    obtain ⟨fewer, rfl⟩ : ∃ m, fewer = m + 1 := ⟨fewer - 1, by omega⟩
    rw [rounds_succ] at hedge ⊢
    rcases List.mem_append.1 hedge with hfresh | hlater
    · exact List.mem_append_left _ hfresh
    · exact List.mem_append_right _ (ih (h.next ht) hlater (by omega))

/-! ### The listing -/

/-- No way to a collection is shorter than the one on which it is met first. -/
theorem FirstMet.length_le (ht : t.Distinct) {level : Nat} {edge : Edge}
    (h : FirstMet t level edge) {keys : List String}
    (hway : t.Way keys (.collection edge.collection)) : edge.keys.length ≤ keys.length := by
  obtain ⟨k, ref, name, hlength, -, href, hholds⟩ := hway.atLevel ht
  have hle := h.earliest k ref name href hholds
  rw [h.length_eq, hlength]
  omega

theorem nodup_reachableCollections (t : SchemaTree) :
    (t.reachableCollections.map (·.collection)).Nodup := by
  rw [(reachableCollections_eq_expanded (Nat.lt_succ_self _)).2]
  exact (nodup_expanded _ _ _).1

theorem pairwise_reachableCollections (ht : t.Distinct) :
    t.reachableCollections.Pairwise fun a b => a.keys.length ≤ b.keys.length := by
  rw [(reachableCollections_eq_expanded (Nat.lt_succ_self _)).2]
  exact levelled_start.pairwise_length ht _

theorem exists_firstMet (ht : t.Distinct) {edge : Edge} (h : edge ∈ t.reachableCollections) :
    ∃ level, FirstMet t level edge := by
  rw [(reachableCollections_eq_expanded (Nat.lt_succ_self _)).2] at h
  obtain ⟨level, -, -, hfirst⟩ := levelled_start.firstMet ht h
  exact ⟨level, hfirst⟩

/-- Every collection that a document at some level holds is listed. -/
theorem mem_reachableCollections_of_holds {level : Nat} {ref : DocumentRef} {name : String}
    {id : Nat} (href : t.AtLevel level ref) (hholds : t.Holds ref name id) :
    id ∈ t.reachableCollections.map (·.collection) := by
  -- as many rounds as it takes to end the search, and to get below the level
  have hallowed : t.collections.length < t.collections.length + level + 1 := by omega
  have hlevel : level < t.collections.length + level + 1 := by omega
  obtain ⟨edge, hmet, -, rfl⟩ := meets_roundsFromRoot.2 ⟨level, hlevel, ref, href, hholds⟩
  have hexpanded := expanded_of_met hmet
  rw [List.append_nil] at hexpanded
  rwa [(reachableCollections_eq_expanded hallowed).2]

/-- A search finds a listed collection by the name that ends its way, if it goes down that far. -/
theorem met_of_listed (ht : t.Distinct) {edge : Edge} (h : edge ∈ t.reachableCollections)
    {depth : Nat} (hdepth : edge.keys.length < 2 * depth) :
    edge ∈ (t.roundsFromRoot depth).met := by
  rw [(reachableCollections_eq_expanded (Nat.lt_succ_self _)).2] at h
  refine met_of_expanded (levelled_start.expanded_of_lt ht h ?_)
  rwa [Nat.zero_add]

end SchemaAtlas.SchemaTree
