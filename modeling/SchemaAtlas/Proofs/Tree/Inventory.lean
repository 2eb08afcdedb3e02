import Mathlib.Algebra.BigOperators.Group.Finset.Basic
import SchemaAtlas.Proofs.Text.Splitting
import SchemaAtlas.Proofs.Tree.Listing
import SchemaAtlas.Tree.Inventory

/-!
# What an inventory says

The inventory of a tree accounts for each collection that can be reached, once and under a shortest
way: a row for every field of every entry, and the numbers of the collections and of their entries.
Its group names are the last names of these ways. A collection that is held under several names adds
one of them, so a search may find groups that the inventory does not name.
-/
namespace SchemaAtlas.SchemaTree

variable {t : SchemaTree}

/-- A way to a collection than which no other one is shorter. -/
def ShortestWay (t : SchemaTree) (keys : List String) (id : Nat) : Prop :=
  t.Way keys (.collection id) ∧
    ∀ others, t.Way others (.collection id) → keys.length ≤ others.length

/-- A listing of the collections of a tree, breadth first. -/
structure ListsBreadthFirst (t : SchemaTree) (listing : List Edge) : Prop where
  once : (listing.map (·.collection)).Nodup
  all : ∀ keys id, t.Way keys (.collection id) → id ∈ listing.map (·.collection)
  shortest : ∀ edge ∈ listing, t.ShortestWay edge.keys edge.collection
  ordered : listing.Pairwise fun a b => a.keys.length ≤ b.keys.length

theorem listsBreadthFirst_reachableCollections (ht : t.Distinct) :
    t.ListsBreadthFirst t.reachableCollections := by
  refine ⟨nodup_reachableCollections t, fun keys id hway => ?_, fun edge hedge => ?_,
    pairwise_reachableCollections ht⟩
  · obtain ⟨level, ref, name, -, -, href, hholds⟩ := hway.atLevel ht
    exact mem_reachableCollections_of_holds href hholds
  · obtain ⟨level, hfirst⟩ := exists_firstMet ht hedge
    exact ⟨hfirst.way, fun others => hfirst.length_le ht⟩

/-! ### Rows and totals -/

/-- The contents of the rows of a document: its fields, or one row without a field. -/
def rowFields (fields : List (String × FieldType)) : List (Option (String × FieldType)) :=
  if fields.isEmpty then [none] else fields.map some

theorem rows_ofDocument (path label : String) (d : Document) :
    InventoryRow.ofDocument path label d =
      (rowFields d.schema.fields).map (InventoryRow.mk path label) := by
  unfold InventoryRow.ofDocument rowFields
  split
  · rename_i hfields
    rw [hfields]
    rfl
  · rename_i hfields
    have hne : d.schema.fields.isEmpty = false := by
      rw [← Bool.not_eq_true, List.isEmpty_iff]
      exact fun h => hfields h
    rw [hne, if_neg Bool.false_ne_true, List.map_map]
    rfl

/-- The documents of a collection are its entries under their labels. -/
theorem documentsOf_perm (ht : t.Distinct) (id : Nat) :
    (t.documentsOf id).Perm ((t.collection id).entries.map fun entry =>
      ((t.collection id).label entry.1, t.document entry.2)) := by
  have hperm := (Collection.labelled_perm (ht.documents id)).map fun entry =>
    (entry.1, t.document entry.2)
  rw [List.map_map] at hperm
  exact hperm

/-- The rows of the entries of a collection. -/
def entryRows (t : SchemaTree) (path : String) (id : Nat) : List InventoryRow :=
  (t.collection id).entries.flatMap fun entry =>
    (rowFields (t.document entry.2).schema.fields).map
      (InventoryRow.mk path ((t.collection id).label entry.1))

theorem collectionRows_perm (ht : t.Distinct) (path : String) (id : Nat) :
    ((t.documentsOf id).flatMap fun entry => InventoryRow.ofDocument path entry.1 entry.2).Perm
      (t.entryRows path id) := by
  have hperm := (documentsOf_perm ht id).flatMap_right fun entry =>
    InventoryRow.ofDocument path entry.1 entry.2
  rw [List.flatMap_map] at hperm
  simp only [rows_ofDocument] at hperm ⊢
  exact hperm

/-- The keys under which a collection is listed. -/
def listedKeys (t : SchemaTree) (id : Nat) : List String :=
  ((t.reachableCollections.find? fun edge => edge.collection = id).map (·.keys)).getD []

theorem listedKeys_of_mem {edge : Edge} (h : edge ∈ t.reachableCollections) :
    t.listedKeys edge.collection = edge.keys := by
  unfold listedKeys
  cases hfind : t.reachableCollections.find? fun other => other.collection = edge.collection with
  | none => exact absurd (decide_eq_true rfl) (List.find?_eq_none.1 hfind edge h)
  | some other =>
    have hsame : other.collection = edge.collection := by simpa using List.find?_some hfind
    have hother := List.mem_of_find?_eq_some hfind
    rw [List.inj_on_of_nodup_map (nodup_reachableCollections t) hother h hsame]
    rfl

theorem coe_flatMap_eq_sum {α β : Type} (f : α → List β) (xs : List α) :
    ((xs.flatMap f : List β) : Multiset β) = (xs.map fun x => (f x : Multiset β)).sum := by
  induction xs with
  | nil => rfl
  | cons x xs ih =>
    rw [List.flatMap_cons, ← Multiset.coe_add, ih, List.map_cons, List.sum_cons]

/-- A sum over the collections that can be reached is one over the listing. -/
theorem sum_reachable {M : Type} [AddCommMonoid M] (f : Nat → M) :
    ∑ id ∈ (t.reachableCollections.map (·.collection)).toFinset, f id =
      (t.reachableCollections.map fun edge => f edge.collection).sum := by
  rw [List.sum_toFinset f (nodup_reachableCollections t), List.map_map]
  rfl

/--
The inventory of a tree. All collections that can be reached are listed breadth first, each once and
under a shortest way. The rows are those of the entries of these collections under the listed ways,
and the totals are the numbers of the collections and of their entries.
-/
theorem inventory_of_reachable (t : SchemaTree) (ht : t.Distinct) :
    t.ListsBreadthFirst t.reachableCollections ∧
      ∃ (reachable : Finset Nat) (listed : Nat → List String),
        (∀ id, id ∈ reachable ↔ ∃ keys, t.Way keys (.collection id)) ∧
        (∀ edge ∈ t.reachableCollections, listed edge.collection = edge.keys) ∧
        (t.inventoryRows : Multiset InventoryRow) =
          ∑ id ∈ reachable, (t.entryRows (joinPath (listed id)) id : Multiset InventoryRow) ∧
        t.inventorySummary.collectionCount = reachable.card ∧
        t.inventorySummary.documentCount =
          ∑ id ∈ reachable, (t.collection id).entries.length := by
  have hlists := listsBreadthFirst_reachableCollections ht
  refine ⟨hlists, (t.reachableCollections.map (·.collection)).toFinset, t.listedKeys,
    fun id => ?_, fun edge => listedKeys_of_mem, ?_, ?_, ?_⟩
  · rw [List.mem_toFinset]
    refine ⟨fun h => ?_, fun h => h.elim fun keys => hlists.all keys id⟩
    obtain ⟨edge, hedge, rfl⟩ := List.mem_map.1 h
    exact ⟨edge.keys, (hlists.shortest edge hedge).1⟩
  · rw [sum_reachable, inventoryRows, coe_flatMap_eq_sum]
    refine congrArg List.sum (List.map_congr_left fun edge hedge => ?_)
    rw [listedKeys_of_mem hedge]
    exact Multiset.coe_eq_coe.2 (collectionRows_perm ht _ _)
  · rw [List.toFinset_card_of_nodup hlists.once, List.length_map]
    rfl
  · rw [sum_reachable, inventorySummary, List.length_flatMap]
    refine congrArg List.sum (List.map_congr_left fun edge _ => ?_)
    rw [(documentsOf_perm ht edge.collection).length_eq, List.length_map]

/-- In a tree with a cycle: users, their friends who are users again, and their logs. -/
theorem inventory_of_reachable_friends : ∃ t, ofGraph friendsGraph .default = .ok t ∧
    t.Distinct ∧ t.ListsBreadthFirst t.reachableCollections ∧
      ∃ (reachable : Finset Nat) (listed : Nat → List String),
        (∀ id, id ∈ reachable ↔ ∃ keys, t.Way keys (.collection id)) ∧
        (∀ edge ∈ t.reachableCollections, listed edge.collection = edge.keys) ∧
        (t.inventoryRows : Multiset InventoryRow) =
          ∑ id ∈ reachable, (t.entryRows (joinPath (listed id)) id : Multiset InventoryRow) ∧
        t.inventorySummary.collectionCount = reachable.card ∧
        t.inventorySummary.documentCount =
          ∑ id ∈ reachable, (t.collection id).entries.length := by
  obtain ⟨t, ht⟩ := ofGraph_friendsGraph
  have hdistinct := (ofGraph_mirrors ht).distinct distinctKeys_friendsGraph
  exact ⟨t, ht, hdistinct, inventory_of_reachable t hdistinct⟩

/-! ### Group names -/

/-- Some document that can be reached holds a collection under a name. -/
def HoldsBelowRoot (t : SchemaTree) (name : String) : Prop :=
  ∃ keys ref id, t.Way keys (.document ref) ∧ (name, id) ∈ (t.document ref).collections

theorem holdsBelowRoot_iff (ht : t.Distinct) {name : String} :
    t.HoldsBelowRoot name ↔ ∃ level ref id, t.AtLevel level ref ∧ t.Holds ref name id := by
  constructor
  · intro h
    obtain ⟨keys, ref, id, hway, hholds⟩ := h
    obtain ⟨level, -, hlevel⟩ := hway.atLevel ht
    exact ⟨level, ref, id, hlevel, hholds⟩
  · intro h
    obtain ⟨level, ref, id, hlevel, hholds⟩ := h
    obtain ⟨keys, -, hway⟩ := hlevel.exists_way ht
    exact ⟨keys, ref, id, hway, hholds⟩

/-- The names that documents hold collections under are those that a deep enough search meets. -/
theorem holdsBelowRoot_iff_meets (ht : t.Distinct) {name : String} :
    t.HoldsBelowRoot name ↔
      ∃ depth, ∀ deeper, depth ≤ deeper → ∃ id, Meets (t.roundsFromRoot deeper).met name id := by
  rw [holdsBelowRoot_iff ht]
  constructor
  · intro h
    obtain ⟨level, ref, id, hlevel, hholds⟩ := h
    exact ⟨level + 1, fun deeper hle =>
      ⟨id, meets_roundsFromRoot.2 ⟨level, by omega, ref, hlevel, hholds⟩⟩⟩
  · intro h
    obtain ⟨depth, hdepth⟩ := h
    obtain ⟨id, hmeets⟩ := hdepth depth (Nat.le_refl depth)
    obtain ⟨level, -, ref, hlevel, hholds⟩ := meets_roundsFromRoot.1 hmeets
    exact ⟨level, ref, id, hlevel, hholds⟩

theorem mem_groupNames {name : String} :
    name ∈ t.inventorySummary.groupNames ↔ ∃ edge ∈ t.reachableCollections, edge.name = name := by
  rw [inventorySummary, mem_sortedDistinct, List.mem_map]

/--
The group names of an inventory, against the names that a search finds. The latter are those under
which documents below the root hold collections, and every group name is one: it ends a shortest way
to some collection. A name that ends all shortest ways to a collection is a group name; so the group
names are all names that a search finds, unless a collection is held under several names.
-/
theorem groupNames_of_ways (t : SchemaTree) (ht : t.Distinct) :
    (∀ name, t.HoldsBelowRoot name ↔
      ∃ depth, ∀ deeper, depth ≤ deeper → ∃ id, Meets (t.roundsFromRoot deeper).met name id) ∧
    (∀ name ∈ t.inventorySummary.groupNames, ∃ keys ref id, t.Way keys (.document ref) ∧
      (name, id) ∈ (t.document ref).collections ∧ t.ShortestWay (keys ++ [name]) id) ∧
    (∀ keys id name, t.Way keys (.collection id) →
      (∀ others, t.ShortestWay others id → others.getLast? = some name) →
        name ∈ t.inventorySummary.groupNames) ∧
    ((∀ keys others id, t.Way keys (.collection id) → t.Way others (.collection id) →
        keys.getLast? = others.getLast?) →
      ∀ name, name ∈ t.inventorySummary.groupNames ↔ t.HoldsBelowRoot name) := by
  have hlists := listsBreadthFirst_reachableCollections ht
  have hsound : ∀ name ∈ t.inventorySummary.groupNames, ∃ keys ref id,
      t.Way keys (.document ref) ∧ (name, id) ∈ (t.document ref).collections ∧
        t.ShortestWay (keys ++ [name]) id := by
    intro name hname
    obtain ⟨edge, hedge, rfl⟩ := mem_groupNames.1 hname
    have hshortest := hlists.shortest edge hedge
    obtain ⟨level, hfirst⟩ := exists_firstMet ht hedge
    obtain ⟨keys, ref, hkeys, hway, hholds⟩ := hshortest.1.exists_last hfirst.name_eq
    exact ⟨keys, ref, _, hway, hholds, hkeys ▸ hshortest⟩
  have hcomplete : ∀ keys id name, t.Way keys (.collection id) →
      (∀ others, t.ShortestWay others id → others.getLast? = some name) →
        name ∈ t.inventorySummary.groupNames := by
    intro keys id name hway hlast
    obtain ⟨edge, hedge, rfl⟩ := List.mem_map.1 (hlists.all keys id hway)
    obtain ⟨level, hfirst⟩ := exists_firstMet ht hedge
    have hname := hfirst.name_eq.symm.trans (hlast edge.keys (hlists.shortest edge hedge))
    exact mem_groupNames.2 ⟨edge, hedge, Option.some.inj hname⟩
  refine ⟨fun name => holdsBelowRoot_iff_meets ht, hsound, hcomplete, fun honly name => ?_⟩
  constructor
  · intro hname
    obtain ⟨keys, ref, id, hway, hholds, -⟩ := hsound name hname
    exact ⟨keys, ref, id, hway, hholds⟩
  · intro h
    obtain ⟨keys, ref, id, hway, hholds⟩ := h
    have hlong := Way.collection hway hholds
    refine hcomplete _ id name hlong fun others hothers => ?_
    rw [honly others _ id hothers.1 hlong, List.getLast?_concat]

/-- Replies, which have replies again. -/
def repliesTree : SchemaTree where
  collections := [(1, ⟨[("*", .declared 2)], some "*"⟩)]
  documents := [(2, ⟨Schema.empty, [("replies", 1)]⟩)]
  root := ⟨Schema.empty, [("replies", 1)]⟩

theorem collections_repliesTree (ref : DocumentRef) :
    (repliesTree.document ref).collections = [("replies", 1)] ∨
      (repliesTree.document ref).collections = [] := by
  cases ref with
  | root => exact .inl rfl
  | blank collection key => exact .inr rfl
  | declared id =>
    by_cases hid : id = 2
    · exact .inl (hid ▸ rfl)
    · have hne : (id == 2) = false := beq_eq_false_iff_ne.2 hid
      refine .inr ?_
      simp [document, repliesTree, List.lookup_cons, hne, Document.empty]

theorem distinct_repliesTree : repliesTree.Distinct := by
  constructor
  · intro ref
    rcases collections_repliesTree ref with h | h
    · rw [h]
      decide
    · rw [h]
      exact List.nodup_nil
  · intro id
    by_cases hid : id = 1
    · subst hid
      decide
    · have hne : (id == 1) = false := beq_eq_false_iff_ne.2 hid
      simp [collection, repliesTree, List.lookup_cons, hne, Collection.empty]

/-- However long a way is, it comes to the replies by their one name. -/
theorem groupNames_of_ways_replies : repliesTree.Distinct ∧
    (∀ keys others id, repliesTree.Way keys (.collection id) →
      repliesTree.Way others (.collection id) → keys.getLast? = others.getLast?) ∧
    ∀ name, name ∈ repliesTree.inventorySummary.groupNames ↔ repliesTree.HoldsBelowRoot name := by
  have hlast : ∀ keys id, repliesTree.Way keys (.collection id) →
      keys.getLast? = some "replies" := by
    intro keys id h
    cases h with
    | @collection _ ref name _ _ hholds =>
      rw [List.getLast?_concat]
      rcases collections_repliesTree ref with h | h
      · rw [h] at hholds
        exact congrArg some (Prod.mk.inj (List.mem_singleton.1 hholds)).1
      · rw [h] at hholds
        exact absurd hholds List.not_mem_nil
  have honly : ∀ keys others id, repliesTree.Way keys (.collection id) →
      repliesTree.Way others (.collection id) → keys.getLast? = others.getLast? :=
    fun keys others id hkeys hothers => (hlast keys id hkeys).trans (hlast others id hothers).symm
  have hnames := groupNames_of_ways repliesTree distinct_repliesTree
  exact ⟨distinct_repliesTree, honly, hnames.2.2.2 honly⟩

/-- People, who are also declared as the staff. -/
def staffGraph : Graph where
  nodes := #[.mapping [(.text "people", .node 1), (.text "staff", .node 1)],
    .mapping [(.text "*", .node 2)], .mapping [(.text "$schema", .node 3)],
    .mapping [(.text "name", .leaf (.text "string"))]]
  root := .node 0

theorem groupNames_eq_expanded (t : SchemaTree) : t.inventorySummary.groupNames =
    sortedDistinct ((t.roundsFromRoot (t.collections.length + 1)).expanded.map (·.name)) := by
  rw [inventorySummary, (reachableCollections_eq_expanded (Nat.lt_succ_self _)).2]

/-- The group of the staff can be searched for, but it is not among the group names. -/
theorem not_groupNames_of_held : ¬ ∀ (t : SchemaTree) (name : String), t.Distinct →
    (name ∈ t.inventorySummary.groupNames ↔ t.HoldsBelowRoot name) := by
  intro h
  have hcomputed : ((ofGraph staffGraph .default).toOption.map fun t => (t.root.collections,
      sortedDistinct ((t.roundsFromRoot (t.collections.length + 1)).expanded.map (·.name)))) =
        some ([("people", 1), ("staff", 1)], ["people"]) := by
    decide +kernel
  cases ht : ofGraph staffGraph .default with
  | error e =>
    rw [ht] at hcomputed
    cases hcomputed
  | ok t =>
    rw [ht] at hcomputed
    obtain ⟨hroot, hnames⟩ := Prod.mk.inj (Option.some.inj hcomputed)
    have hdistinct := (ofGraph_mirrors ht).distinct (by decide)
    have hheld : t.HoldsBelowRoot "staff" := by
      refine ⟨[], .root, 1, .root, ?_⟩
      change ("staff", 1) ∈ t.root.collections
      rw [hroot]
      decide
    have hmem := (h t "staff" hdistinct).2 hheld
    rw [groupNames_eq_expanded, hnames] at hmem
    exact absurd hmem (by decide)

/-! ### The same ways in a search -/

theorem joinPath_concat {keys : List String} (h : keys ≠ []) (label : String) :
    joinPath (keys ++ [label]) = joinPath keys ++ "/" ++ label := by
  unfold joinPath
  induction keys with
  | nil => exact absurd rfl h
  | cons key rest ih =>
    by_cases hrest : rest = []
    · rw [hrest]
      rfl
    · rw [List.cons_append, Text.joinWith_cons _ _ (List.append_ne_nil_of_left_ne_nil hrest _),
        Text.joinWith_cons _ _ hrest, ih hrest]
      simp only [String.append_assoc]

/-- The number of collection names on a way to a collection: every other key is one. -/
def levelsOf (keys : List String) : Nat := (keys.length + 1) / 2

/--
A search for a group comes by the same ways as the inventory: if it goes down to the level of a
listed collection, it finds the schema of every entry, with the listed way and the label of the
entry as an origin.
-/
theorem origin_of_listed (t : SchemaTree) (ht : t.WellNamed) (edge : Edge)
    (hedge : edge ∈ t.reachableCollections) (name : String)
    (hname : edge.keys.getLast? = some name) (key : String) (ref : DocumentRef)
    (hentry : (key, ref) ∈ (t.collection edge.collection).entries) (depth : Int)
    (hdepth : levelsOf edge.keys ≤ depth) :
    ∃ u, t.collectionGroup (Path.checkGroupName name) depth = .ok u ∧
      u.contains (t.document ref).schema = true ∧
      u.HasOrigin (t.document ref).schema
        (joinPath edge.keys ++ "/" ++ (t.collection edge.collection).label key) := by
  obtain ⟨level, hfirst⟩ := exists_firstMet ht.toDistinct hedge
  obtain rfl : edge.name = name := Option.some.inj (hfirst.name_eq.symm.trans hname)
  have hlength := hfirst.length_eq
  have hlevels : levelsOf edge.keys = level + 1 := by
    unfold levelsOf
    omega
  obtain ⟨above, holder, hkeys, -, hholds⟩ := hfirst.way.exists_last hfirst.name_eq
  have hvalid := checkGroupName_of_isName (ht.collectionNames holder _ hholds)
  refine ⟨_, collectionGroup_eq_ok hvalid (by omega), ?_⟩
  -- the edge is met by its name in time, and the entry is one of the documents below it
  have hmet : edge ∈ (t.roundsFromRoot depth.toNat).met :=
    met_of_listed ht.toDistinct hedge (by omega)
  have hlabel := (Collection.mem_labelled_iff (ht.documents _)).2 ⟨key, hentry, rfl⟩
  have hplace : ⟨ref, edge.keys ++ [(t.collection edge.collection).label key]⟩ ∈
      t.groupDocuments edge.name depth.toNat :=
    List.mem_flatMap.2 ⟨edge, List.mem_filter.2 ⟨hmet, decide_eq_true rfl⟩,
      List.mem_map.2 ⟨_, hlabel, rfl⟩⟩
  constructor
  · exact contains_unionOfDocuments.2 ⟨_, hplace, Schema.same_refl _⟩
  · refine hasOrigin_unionOfDocuments.2 ⟨_, hplace, Schema.same_refl _, ?_⟩
    have hne : edge.keys ≠ [] := hkeys ▸ List.concat_ne_nil _ _
    exact (joinPath_concat hne _).symm

/-- Mail boxes with mails, and with boxes inside. -/
def boxesGraph : Graph where
  nodes := #[.mapping [(.text "boxes", .node 1)], .mapping [(.text "*", .node 2)],
    .mapping [(.text "mails", .node 3), (.text "boxes", .node 1)], .mapping [(.text "*", .node 4)],
    .mapping [(.text "$schema", .node 5)], .mapping [(.text "subject", .leaf (.text "string"))]]
  root := .node 0

/-- The mails of a box are found by the way under which they are listed. -/
theorem origin_of_listed_mails : ∃ t, ofGraph boxesGraph .default = .ok t ∧ t.WellNamed ∧
    ∃ edge ∈ t.reachableCollections, edge.keys = ["boxes", "\x7bid\x7d", "mails"] ∧
      ∃ ref, ("*", ref) ∈ (t.collection edge.collection).entries ∧
        ∃ u, t.collectionGroup (Path.checkGroupName "mails") 2 = .ok u ∧
          u.contains (t.document ref).schema = true ∧
          u.HasOrigin (t.document ref).schema "boxes/\x7bid\x7d/mails/\x7bid\x7d" := by
  have hcomputed : ((ofGraph boxesGraph .default).toOption.map fun t =>
      ((t.roundsFromRoot (t.collections.length + 1)).expanded.map (fun edge =>
        (edge.keys, edge.collection)), (t.collection 3).entries, (t.collection 3).genericKey)) =
      some ([(["boxes"], 1), (["boxes", "\x7bid\x7d", "mails"], 3)], [("*", .declared 4)],
        some "*") := by
    decide +kernel
  cases ht : ofGraph boxesGraph .default with
  | error e =>
    rw [ht] at hcomputed
    cases hcomputed
  | ok t =>
    rw [ht] at hcomputed
    obtain ⟨hlisted, hcollection⟩ := Prod.mk.inj (Option.some.inj hcomputed)
    obtain ⟨hentries, hkey⟩ := Prod.mk.inj hcollection
    have hnamed := (ofGraph_mirrors ht).wellNamed (by decide)
    have hmem : (["boxes", "\x7bid\x7d", "mails"], 3) ∈
        t.reachableCollections.map fun edge => (edge.keys, edge.collection) := by
      rw [(reachableCollections_eq_expanded (Nat.lt_succ_self _)).2, hlisted]
      decide
    obtain ⟨edge, hedge, hsame⟩ := List.mem_map.1 hmem
    obtain ⟨hkeys, hid⟩ := Prod.mk.inj hsame
    have hentry : ("*", .declared 4) ∈ (t.collection edge.collection).entries := by
      rw [hid, hentries]
      decide
    have hlabel : (t.collection edge.collection).label "*" = "\x7bid\x7d" := by
      rw [hid, Collection.label, Collection.isGenericKey, hkey]
      rfl
    obtain ⟨u, hu, hcontains, horigin⟩ := origin_of_listed t hnamed edge hedge "mails"
      (by rw [hkeys]; rfl) "*" (.declared 4) hentry 2 (by rw [hkeys]; decide)
    rw [hlabel, hkeys] at horigin
    exact ⟨t, rfl, hnamed, edge, hedge, hkeys, _, hentry, u, hu, hcontains, horigin⟩

end SchemaAtlas.SchemaTree
