import SchemaAtlas.Proofs.Tree.Mirror
import SchemaAtlas.Tree.CollectionGroup

/-!
# Collection groups and wildcards

A search for a collection group expands every collection once, in the first round that meets it,
while paths of wildcards come back to shared collections, and around cycles, as often as they are
long. Both meet the same collections by the same names within the same number of levels: what a
collection holds was met at least as close to the root when it was expanded, and its name is looked
at before that.
-/
namespace SchemaAtlas.SchemaTree

variable {t : SchemaTree}

/-- A document holds a collection under a name. -/
def Holds (t : SchemaTree) (ref : DocumentRef) (name : String) (id : Nat) : Prop :=
  (name, id) ∈ (t.document ref).collections

def Member (t : SchemaTree) (id : Nat) (ref : DocumentRef) : Prop :=
  ∃ label, (label, ref) ∈ (t.collection id).labelled

/-- The documents so many levels of collections below the root, on whatever way. -/
inductive AtLevel (t : SchemaTree) : Nat → DocumentRef → Prop
  | root : AtLevel t 0 .root
  | inside {level ref name id inner} : AtLevel t level ref → t.Holds ref name id →
      t.Member id inner → AtLevel t (level + 1) inner

/-! ### One round -/

/-- Some edge leads to a collection by a name. -/
def Meets (edges : List Edge) (name : String) (id : Nat) : Prop :=
  ∃ edge ∈ edges, edge.name = name ∧ edge.collection = id

theorem meets_append {edges more : List Edge} {name : String} {id : Nat} :
    Meets (edges ++ more) name id ↔ Meets edges name id ∨ Meets more name id := by
  simp only [Meets, List.mem_append, or_and_right, exists_or]

theorem meets_edgesOf {frontier : List (Located DocumentRef)} {name : String} {id : Nat} :
    Meets (t.edgesOf frontier) name id ↔ ∃ place ∈ frontier, t.Holds place.node name id := by
  unfold Meets edgesOf Holds
  constructor
  · intro h
    obtain ⟨edge, hedge, rfl, rfl⟩ := h
    obtain ⟨place, hplace, hbelow⟩ := List.mem_flatMap.1 hedge
    obtain ⟨entry, hentry, rfl⟩ := List.mem_map.1 hbelow
    exact ⟨place, hplace, hentry⟩
  · intro h
    obtain ⟨place, hplace, hentry⟩ := h
    exact ⟨_, List.mem_flatMap.2 ⟨place, hplace, List.mem_map_of_mem hentry⟩, rfl, rfl⟩

theorem mem_of_mem_freshEdges {expanded : List Nat} {edges : List Edge} {edge : Edge}
    (h : edge ∈ freshEdges expanded edges) : edge ∈ edges := by
  induction edges generalizing expanded with
  | nil => exact h
  | cons head rest ih =>
    rw [freshEdges] at h
    split at h
    · exact List.mem_cons_of_mem _ (ih h)
    · rcases List.mem_cons.1 h with rfl | h
      · exact List.mem_cons_self
      · exact List.mem_cons_of_mem _ (ih h)

/-- The collection at the end of an edge was expanded before or is met for the first time. -/
theorem mem_expanded_or_fresh {expanded : List Nat} {edges : List Edge} {edge : Edge}
    (h : edge ∈ edges) :
    edge.collection ∈ (freshEdges expanded edges).map (·.collection) ++ expanded := by
  induction edges generalizing expanded with
  | nil => exact absurd h List.not_mem_nil
  | cons head rest ih =>
    rw [freshEdges]
    split
    · rename_i hexpanded
      rcases List.mem_cons.1 h with rfl | h
      · exact List.mem_append_right _ (List.contains_iff_mem.1 hexpanded)
      · exact ih h
    · rw [List.map_cons, List.cons_append]
      rcases List.mem_cons.1 h with rfl | h
      · exact List.mem_cons_self
      · have hrest := @ih (head.collection :: expanded) h
        rw [List.mem_append, List.mem_cons] at hrest
        rw [List.mem_cons, List.mem_append]
        tauto

theorem member_iff_documentsBelow {edge : Edge} {ref : DocumentRef} :
    t.Member edge.collection ref ↔ ∃ place ∈ t.documentsBelow edge, place.node = ref := by
  unfold Member documentsBelow memberDocuments
  constructor
  · intro h
    obtain ⟨label, hentry⟩ := h
    exact ⟨_, List.mem_map_of_mem hentry, rfl⟩
  · intro h
    obtain ⟨place, hplace, rfl⟩ := h
    obtain ⟨entry, hentry, rfl⟩ := List.mem_map.1 hplace
    exact ⟨entry.1, hentry⟩

/-- What is expanded once a round is over. -/
def expandedAfter (t : SchemaTree) (expanded : List Nat) (frontier : List (Located DocumentRef)) :
    List Nat :=
  (freshEdges expanded (t.edgesOf frontier)).map (·.collection) ++ expanded

/-- The frontier that a round leaves. -/
def frontierAfter (t : SchemaTree) (expanded : List Nat) (frontier : List (Located DocumentRef)) :
    List (Located DocumentRef) :=
  (freshEdges expanded (t.edgesOf frontier)).flatMap t.documentsBelow

/-- A document is at some place of a frontier. -/
def InFrontier (frontier : List (Located DocumentRef)) (ref : DocumentRef) : Prop :=
  ∃ place ∈ frontier, place.node = ref

theorem inFrontier_documentsBelow {edges : List Edge} {ref : DocumentRef} :
    InFrontier (edges.flatMap t.documentsBelow) ref ↔
      ∃ edge ∈ edges, t.Member edge.collection ref := by
  constructor
  · intro h
    obtain ⟨place, hplace, rfl⟩ := h
    obtain ⟨edge, hedge, hbelow⟩ := List.mem_flatMap.1 hplace
    exact ⟨edge, hedge, member_iff_documentsBelow.2 ⟨place, hbelow, rfl⟩⟩
  · intro h
    obtain ⟨edge, hedge, hmember⟩ := h
    obtain ⟨place, hplace, rfl⟩ := member_iff_documentsBelow.1 hmember
    exact ⟨place, List.mem_flatMap.2 ⟨edge, hedge, hplace⟩, rfl⟩

/--
The invariant of the search before the round at a level: the documents of that level are in the
frontier or were in one before; what such documents hold is expanded; and the documents of whatever
is expanded are in the frontier or were in one before.
-/
structure Covered (t : SchemaTree) (level : Nat) (seen : DocumentRef → Prop) (expanded : List Nat)
    (frontier : List (Located DocumentRef)) : Prop where
  atLevel : ∀ ref, InFrontier frontier ref → t.AtLevel level ref
  reached : ∀ ref, t.AtLevel level ref → seen ref ∨ InFrontier frontier ref
  held : ∀ ref name id, seen ref → t.Holds ref name id → id ∈ expanded
  members : ∀ id ref, id ∈ expanded → t.Member id ref → seen ref ∨ InFrontier frontier ref

theorem covered_start : Covered t 0 (fun _ => False) [] [⟨.root, []⟩] := by
  refine ⟨?_, ?_, ?_, ?_⟩
  · intro ref h
    obtain ⟨place, hplace, rfl⟩ := h
    obtain rfl := List.mem_singleton.1 hplace
    exact .root
  · intro ref href
    cases href
    exact .inr ⟨_, List.mem_singleton.2 rfl, rfl⟩
  · exact fun _ _ _ h => h.elim
  · exact fun _ _ h => absurd h List.not_mem_nil

theorem Covered.held_after {level : Nat} {seen : DocumentRef → Prop} {expanded : List Nat}
    {frontier : List (Located DocumentRef)} (h : Covered t level seen expanded frontier)
    {ref : DocumentRef} {name : String} {id : Nat} (href : seen ref ∨ InFrontier frontier ref)
    (hholds : t.Holds ref name id) : id ∈ t.expandedAfter expanded frontier := by
  rcases href with hseen | ⟨place, hplace, rfl⟩
  · exact List.mem_append_right _ (h.held ref name id hseen hholds)
  · obtain ⟨edge, hedge, _, rfl⟩ := meets_edgesOf.2 ⟨place, hplace, hholds⟩
    exact mem_expanded_or_fresh hedge

theorem Covered.members_after {level : Nat} {seen : DocumentRef → Prop} {expanded : List Nat}
    {frontier : List (Located DocumentRef)} (h : Covered t level seen expanded frontier) {id : Nat}
    {ref : DocumentRef} (hid : id ∈ t.expandedAfter expanded frontier) (hmember : t.Member id ref) :
    (seen ref ∨ InFrontier frontier ref) ∨ InFrontier (t.frontierAfter expanded frontier) ref := by
  rcases List.mem_append.1 hid with hfresh | hexpanded
  · obtain ⟨edge, hedge, rfl⟩ := List.mem_map.1 hfresh
    exact .inr (inFrontier_documentsBelow.2 ⟨edge, hedge, hmember⟩)
  · exact .inl (h.members id ref hexpanded hmember)

/-- A round keeps the invariant. -/
theorem Covered.next {level : Nat} {seen : DocumentRef → Prop} {expanded : List Nat}
    {frontier : List (Located DocumentRef)} (h : Covered t level seen expanded frontier) :
    Covered t (level + 1) (fun ref => seen ref ∨ InFrontier frontier ref)
      (t.expandedAfter expanded frontier) (t.frontierAfter expanded frontier) := by
  constructor
  · intro ref href
    obtain ⟨edge, hedge, hmember⟩ := inFrontier_documentsBelow.1 href
    obtain ⟨place, hplace, hholds⟩ :=
      meets_edgesOf.1 ⟨edge, mem_of_mem_freshEdges hedge, rfl, rfl⟩
    exact .inside (h.atLevel _ ⟨place, hplace, rfl⟩) hholds hmember
  · intro ref href
    cases href with
    | inside hparent hholds hmember =>
      -- a parent met before this round has its collections expanded, also if not in this frontier
      have hid := h.held_after (h.reached _ hparent) hholds
      exact h.members_after hid hmember
  · intro ref name id href hholds
    exact h.held_after href hholds
  · intro id ref hid hmember
    exact h.members_after hid hmember

/-! ### Rounds -/

theorem rounds_nil (allowed : Nat) (expanded : List Nat) :
    t.rounds allowed expanded [] = ⟨[], [], []⟩ := by
  cases allowed with
  | zero => rfl
  | succ allowed => rfl

/-- A round on an empty frontier changes nothing, so all rounds are alike. -/
theorem rounds_succ (allowed : Nat) (expanded : List Nat) (frontier : List (Located DocumentRef)) :
    t.rounds (allowed + 1) expanded frontier =
      let rest := t.rounds allowed (t.expandedAfter expanded frontier)
        (t.frontierAfter expanded frontier)
      ⟨t.edgesOf frontier ++ rest.met,
        freshEdges expanded (t.edgesOf frontier) ++ rest.expanded, rest.unvisited⟩ := by
  cases frontier with
  | nil =>
    have hfrontier : t.frontierAfter expanded [] = [] := rfl
    rw [rounds_nil, hfrontier, rounds_nil]
    rfl
  | cons place places => rfl

/-- What some rounds meet is held by a document at one of their levels. -/
theorem Covered.sound {level : Nat} {seen : DocumentRef → Prop} {expanded : List Nat}
    {frontier : List (Located DocumentRef)} (h : Covered t level seen expanded frontier)
    {allowed : Nat} {name : String} {id : Nat}
    (hmeets : Meets (t.rounds allowed expanded frontier).met name id) :
    ∃ k < level + allowed, ∃ ref, t.AtLevel k ref ∧ t.Holds ref name id := by
  induction allowed generalizing level seen expanded frontier with
  | zero =>
    obtain ⟨edge, hedge, _⟩ := hmeets
    exact absurd hedge List.not_mem_nil
  | succ allowed ih =>
    rw [rounds_succ, meets_append] at hmeets
    rcases hmeets with hnow | hlater
    · obtain ⟨place, hplace, hholds⟩ := meets_edgesOf.1 hnow
      exact ⟨level, by omega, place.node, h.atLevel _ ⟨place, hplace, rfl⟩, hholds⟩
    · obtain ⟨k, hk, href⟩ := ih h.next hlater
      exact ⟨k, by omega, href⟩

/-- What a document at one of their levels holds was met by some rounds, or before them. -/
theorem Covered.complete {level : Nat} {seen : DocumentRef → Prop} {expanded : List Nat}
    {frontier : List (Located DocumentRef)} (h : Covered t level seen expanded frontier)
    {allowed k : Nat} {ref : DocumentRef} {name : String} {id : Nat} (hlevel : level ≤ k)
    (hk : k < level + allowed) (href : t.AtLevel k ref) (hholds : t.Holds ref name id) :
    (∃ earlier, seen earlier ∧ t.Holds earlier name id) ∨
      Meets (t.rounds allowed expanded frontier).met name id := by
  induction allowed generalizing level seen expanded frontier with
  | zero => omega
  | succ allowed ih =>
    have hknown : ∀ known, seen known ∨ InFrontier frontier known → t.Holds known name id →
        (∃ earlier, seen earlier ∧ t.Holds earlier name id) ∨
          Meets (t.rounds (allowed + 1) expanded frontier).met name id := by
      rintro known (hseen | ⟨place, hplace, rfl⟩) hknown
      · exact .inl ⟨known, hseen, hknown⟩
      · refine .inr ?_
        rw [rounds_succ, meets_append]
        exact .inl (meets_edgesOf.2 ⟨place, hplace, hknown⟩)
    -- the documents of this level were met by now; of deeper ones the remaining rounds take care
    rcases Nat.eq_or_lt_of_le hlevel with rfl | hbelow
    · exact hknown ref (h.reached ref href) hholds
    · rcases ih h.next hbelow (by omega) with ⟨earlier, hearlier, hearlierHolds⟩ | hlater
      · exact hknown earlier hearlier hearlierHolds
      · refine .inr ?_
        rw [rounds_succ, meets_append]
        exact .inr hlater

/-- Rounds from the root meet what the documents of their levels hold. -/
theorem meets_roundsFromRoot {depth : Nat} {name : String} {id : Nat} :
    Meets (t.roundsFromRoot depth).met name id ↔
      ∃ k < depth, ∃ ref, t.AtLevel k ref ∧ t.Holds ref name id := by
  constructor
  · intro h
    obtain ⟨k, hk, href⟩ := covered_start.sound h
    exact ⟨k, by omega, href⟩
  · intro h
    obtain ⟨k, hk, ref, href, hholds⟩ := h
    have hwithin : k < 0 + depth := by omega
    rcases covered_start.complete (Nat.zero_le k) hwithin href hholds with
      ⟨_, hfalse, _⟩ | hmeets
    · exact hfalse.elim
    · exact hmeets

/-- More rounds change nothing once no document is left. -/
theorem rounds_of_unvisited_eq_nil {allowed more : Nat} {expanded : List Nat}
    {frontier : List (Located DocumentRef)}
    (h : (t.rounds allowed expanded frontier).unvisited = []) (hle : allowed ≤ more) :
    t.rounds more expanded frontier = t.rounds allowed expanded frontier := by
  induction allowed generalizing more expanded frontier with
  | zero =>
    obtain rfl : frontier = [] := h
    rw [rounds_nil, rounds_nil]
  | succ allowed ih =>
    obtain ⟨more, rfl⟩ : ∃ m, more = m + 1 := ⟨more - 1, by omega⟩
    rw [rounds_succ] at h
    rw [rounds_succ, rounds_succ, ih h (by omega)]

/-! ### Paths of wildcards -/

/-- The path of a collection name below so many levels of wildcards. -/
def belowWildcards (levels : Nat) (name : String) : Path :=
  ⟨List.replicate (2 * levels) .any ++ [⟨name, .literal⟩]⟩

/-- One more segment and a wildcard lead into the documents of what is held by a matching name. -/
theorem leads_append_level (ht : t.Distinct) {before : List Segment} {segment : Segment}
    {ref : DocumentRef} :
    (∃ walked, t.Leads (before ++ [segment, .any]) rootPlace ⟨.document ref, walked⟩) ↔
      ∃ above name id, (∃ walked, t.Leads before rootPlace ⟨.document above, walked⟩) ∧
        segment.Takes name ∧ t.Holds above name id ∧ t.Member id ref := by
  simp only [leads_append]
  constructor
  · intro h
    obtain ⟨walked, ⟨node, keys⟩, hleads, middle, hmiddle, last, hlast, rfl⟩ := h
    cases node with
    | collection id =>
      obtain ⟨inner, walked, rfl⟩ : ∃ inner walked, middle = ⟨.document inner, walked⟩ := by
        rcases (mem_childrenAt_collection ht).1 hmiddle with
          ⟨_, inner, _, _, _, rfl⟩ | ⟨_, inner, _, _, _, rfl⟩
        · exact ⟨inner, _, rfl⟩
        · exact ⟨inner, _, rfl⟩
      obtain ⟨_, _, _, heq⟩ := (mem_childrenAt_document_wildcard rfl).1 hlast
      cases heq
    | document above =>
      obtain ⟨name, id, htakes, hholds, rfl⟩ := (mem_childrenAt_document ht).1 hmiddle
      obtain ⟨label, inner, hmember, heq⟩ := (mem_childrenAt_collection_wildcard rfl).1 hlast
      cases heq
      exact ⟨above, name, id, ⟨keys, hleads⟩, htakes, hholds, label, hmember⟩
  · intro h
    obtain ⟨above, name, id, ⟨keys, hleads⟩, htakes, hholds, label, hlabel⟩ := h
    have hmiddle : ⟨.collection id, keys ++ [name]⟩ ∈
        t.childrenAt segment ⟨.document above, keys⟩ :=
      (mem_childrenAt_document ht).2 ⟨name, id, htakes, hholds, rfl⟩
    have hlast : ⟨.document ref, keys ++ [name] ++ [label]⟩ ∈
        t.childrenAt .any ⟨.collection id, keys ++ [name]⟩ :=
      (mem_childrenAt_collection_wildcard rfl).2 ⟨label, ref, hlabel, rfl⟩
    exact ⟨_, _, hleads, _, hmiddle, _, hlast, rfl⟩

/-- Two wildcards at a time lead one level further. -/
theorem leads_wildcards (ht : t.Distinct) {level : Nat} {ref : DocumentRef} :
    (∃ walked, t.Leads (List.replicate (2 * level) .any) rootPlace ⟨.document ref, walked⟩) ↔
      t.AtLevel level ref := by
  induction level generalizing ref with
  | zero =>
    constructor
    · intro h
      obtain ⟨walked, h⟩ := h
      cases h
      exact .root
    · intro h
      cases h
      exact ⟨[], rfl⟩
  | succ level ih =>
    have hsplit : List.replicate (2 * (level + 1)) Segment.any =
        List.replicate (2 * level) .any ++ [.any, .any] :=
      List.replicate_add (2 * level) 2 Segment.any
    rw [hsplit, leads_append_level ht]
    constructor
    · intro h
      obtain ⟨above, name, id, hleads, _, hholds, hmember⟩ := h
      exact .inside (ih.1 hleads) hholds hmember
    · intro h
      cases h with
      | inside habove hholds hmember =>
        exact ⟨_, _, _, ih.2 habove, .inl rfl, hholds, hmember⟩

/-- The documents found below wildcards are those of the named collections at the level. -/
theorem leads_belowWildcards (ht : t.Distinct) {level : Nat} {name : String} {ref : DocumentRef} :
    (∃ walked, t.Leads ((belowWildcards level name).segments ++ [.any]) rootPlace
        ⟨.document ref, walked⟩) ↔
      ∃ above id, t.AtLevel level above ∧ t.Holds above name id ∧ t.Member id ref := by
  rw [belowWildcards, List.append_assoc, List.singleton_append, leads_append_level ht]
  constructor
  · intro h
    obtain ⟨above, other, id, hleads, hwild | rfl, hholds, hmember⟩ := h
    · cases hwild
    · exact ⟨above, id, (leads_wildcards ht).1 hleads, hholds, hmember⟩
  · intro h
    obtain ⟨above, id, habove, hholds, hmember⟩ := h
    exact ⟨above, name, id, (leads_wildcards ht).2 habove, .inr rfl, hholds, hmember⟩

/-! ### Collection groups -/

theorem contains_groupUnion {name : String} {depth : Nat} {s : Schema} :
    (t.groupUnion name depth).contains s = true ↔ ∃ id ref,
      Meets (t.roundsFromRoot depth).met name id ∧ t.Member id ref ∧
        (t.document ref).schema.same s = true := by
  rw [groupUnion, contains_unionOfDocuments]
  unfold groupDocuments
  constructor
  · intro h
    obtain ⟨place, hplace, hsame⟩ := h
    obtain ⟨edge, hedge, hbelow⟩ := List.mem_flatMap.1 hplace
    obtain ⟨hmet, hname⟩ := List.mem_filter.1 hedge
    exact ⟨edge.collection, place.node, ⟨edge, hmet, of_decide_eq_true hname, rfl⟩,
      member_iff_documentsBelow.2 ⟨place, hbelow, rfl⟩, hsame⟩
  · intro h
    obtain ⟨id, ref, ⟨edge, hmet, hname, rfl⟩, hmember, hsame⟩ := h
    obtain ⟨place, hbelow, rfl⟩ := member_iff_documentsBelow.1 hmember
    refine ⟨place, List.mem_flatMap.2 ⟨edge, List.mem_filter.2 ⟨hmet, ?_⟩, hbelow⟩, hsame⟩
    exact decide_eq_true hname

theorem collectionGroup_eq_ok {name : String} (hname : Path.checkGroupName name = .ok name)
    {depth : Int} (hdepth : 1 ≤ depth) :
    t.collectionGroup (Path.checkGroupName name) depth = .ok (t.groupUnion name depth.toNat) := by
  have hcheck : checkDepth depth = .ok depth.toNat := if_neg (by omega)
  rw [hname, collectionGroup, hcheck]
  rfl

/-- A search that does not warn has visited every document. -/
theorem unvisited_of_no_warning {name : String} {depth : Nat}
    (h : ∀ entry ∈ t.groupLog name depth, entry.level ≠ .warning) :
    (t.roundsFromRoot depth).unvisited = [] := by
  by_contra hne
  have hvisited : (t.roundsFromRoot depth).unvisited.isEmpty = false :=
    Bool.eq_false_iff.2 fun hempty => hne (List.isEmpty_iff.1 hempty)
  unfold groupLog at h
  simp [hvisited] at h

theorem groupUnion_of_unvisited {name : String} {depth deeper : Nat}
    (h : (t.roundsFromRoot depth).unvisited = []) (hle : depth ≤ deeper) :
    t.groupUnion name deeper = t.groupUnion name depth := by
  unfold groupUnion groupDocuments roundsFromRoot
  rw [rounds_of_unvisited_eq_nil h hle]

/--
A collection group within a number of levels has the schemas that its name has below the wildcards
of every one of these levels. If the search does not warn that documents are left, searching deeper
gives the same.
-/
theorem collectionGroup_eq_wildcards (t : SchemaTree) (ht : t.Distinct) (name : String)
    (hname : Path.checkGroupName name = .ok name) (depth : Int) (hdepth : 1 ≤ depth) :
    ∃ u, t.collectionGroup (Path.checkGroupName name) depth = .ok u ∧ u.isGeneric = false ∧
      (∀ s, u.contains s = true ↔ ∃ level < depth.toNat, ∃ w,
        t.resolveCollection (belowWildcards level name) = .ok w ∧ w.contains s = true) ∧
      ((∀ entry ∈ t.groupLog name depth.toNat, entry.level ≠ .warning) →
        ∀ deeper, depth ≤ deeper →
          t.collectionGroup (Path.checkGroupName name) deeper = .ok u) := by
  refine ⟨_, collectionGroup_eq_ok hname hdepth, rfl, fun s => ?_, fun hlog deeper hdeeper => ?_⟩
  · have hresolve : ∀ level, t.resolveCollection (belowWildcards level name) =
        .ok (t.collectionUnion (belowWildcards level name)) := by
      intro level
      have hodd : (belowWildcards level name).length % 2 = 1 := by
        simp [belowWildcards, Path.length]
      rw [resolveCollection, Path.require_collection hodd]
      rfl
    rw [contains_groupUnion]
    constructor
    · intro h
      obtain ⟨id, ref, hmeets, hmember, hsame⟩ := h
      obtain ⟨level, hlevel, above, habove, hholds⟩ := meets_roundsFromRoot.1 hmeets
      have hleads := (leads_belowWildcards ht).2 ⟨above, id, habove, hholds, hmember⟩
      exact ⟨level, hlevel, _, hresolve level, contains_collectionUnion.2 ⟨ref, hleads, hsame⟩⟩
    · intro h
      obtain ⟨level, hlevel, w, hw, hs⟩ := h
      obtain rfl := Except.ok.inj ((hresolve level).symm.trans hw)
      obtain ⟨ref, hleads, hsame⟩ := contains_collectionUnion.1 hs
      obtain ⟨above, id, habove, hholds, hmember⟩ := (leads_belowWildcards ht).1 hleads
      have hmeets := meets_roundsFromRoot.2 ⟨level, hlevel, above, habove, hholds⟩
      exact ⟨id, ref, hmeets, hmember, hsame⟩
  · have hle : depth.toNat ≤ deeper.toNat := by omega
    have hdeep : 1 ≤ deeper := by omega
    rw [collectionGroup_eq_ok hname hdeep,
      groupUnion_of_unvisited (unvisited_of_no_warning hlog) hle]

/-- The logs of users, searched for within two levels. -/
theorem collectionGroup_eq_wildcards_logs : ∃ t u, ofGraph friendsGraph .default = .ok t ∧
    t.Distinct ∧ t.collectionGroup (Path.checkGroupName "logs") 2 = .ok u ∧
      (∀ s, u.contains s = true ↔ ∃ level < 2, ∃ w,
        t.resolveCollection (belowWildcards level "logs") = .ok w ∧ w.contains s = true) := by
  obtain ⟨t, ht⟩ := ofGraph_friendsGraph
  have hdistinct := (ofGraph_mirrors ht).distinct distinctKeys_friendsGraph
  obtain ⟨u, hu, _, hschemas, _⟩ :=
    collectionGroup_eq_wildcards t hdistinct "logs" (by decide) 2 (by decide)
  exact ⟨t, u, ht, hdistinct, hu, hschemas⟩

end SchemaAtlas.SchemaTree
