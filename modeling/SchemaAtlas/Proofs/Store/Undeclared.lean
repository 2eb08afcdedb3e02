import SchemaAtlas.Proofs.Store.Failure

/-!
# Undeclared children are the ones that cannot be opened

The undeclared children at a path are the live names without those that the reached node declares,
while a child is opened by looking up the path that is longer by its name. Both say the same of every
child: it is listed as undeclared exactly if opening it fails.
-/
namespace SchemaAtlas

variable {Handle : Type}

namespace Path

/-- The names that a text writes with separators between them; the empty text writes none. -/
def namesOf (text : String) : List String :=
  if text.isEmpty then [] else Text.split pathSeparator text

/-- The text of the path one level below a path, or below the root where it is empty. -/
def childText (text name : String) : String := if text.isEmpty then name else text ++ "/" ++ name

theorem namesOf_of_ne {text : String} (h : text ≠ "") :
    namesOf text = Text.split pathSeparator text :=
  if_neg (mt String.isEmpty_iff.1 h)

theorem childText_ne_empty (text : String) {name : String} (h : IsName name) :
    childText text name ≠ "" := by
  intro hempty
  unfold childText at hempty
  split at hempty
  · exact (isName_iff.1 h).1 hempty
  · exact (isName_iff.1 h).1 (String.append_eq_empty_iff.1 hempty).2

theorem namesOf_childText (text : String) {name : String} (h : IsName name) :
    namesOf (childText text name) = namesOf text ++ [name] := by
  have hname : Text.split pathSeparator name = [name] := Text.split_of_not_mem (isName_iff.1 h).2
  rw [namesOf_of_ne (childText_ne_empty text h), childText, namesOf]
  split
  · exact hname
  · exact (Text.split_append pathSeparator text name).trans (by rw [hname])

/-- The path of the written names is written as it was. -/
theorem text_namesOf (text : String) : (ofNames (namesOf text)).text = text := by
  rw [Path.text, texts_ofNames, namesOf]
  split
  · rename_i hempty
    exact (String.isEmpty_iff.1 hempty).symm
  · exact Text.joinWith_split pathSeparator text

/-- A text writes a path exactly if it is not empty and each of its parts could be a name. -/
theorem ofText_eq_ok_iff_names {text : String} {p : Path} :
    ofText false text = .ok p ↔
      text ≠ "" ∧ (∀ name ∈ namesOf text, IsName name) ∧ p = ofNames (namesOf text) := by
  by_cases htext : text = ""
  · rw [htext]
    exact iff_of_false nofun fun h => h.1 rfl
  · rw [namesOf_of_ne htext, ofText_eq_ok_iff]
    refine ⟨fun h => ⟨htext, h.2⟩, fun h => ⟨?_, h.2⟩⟩
    exact mt List.map_eq_nil_iff.1 (Text.splitAt_ne_nil pathSeparator text.toList)

end Path

/-! ### One step down -/

namespace SchemaTree

variable {t : SchemaTree} {name : String}

theorem intoCollections_eq_nil_iff {place : Located DocumentRef} :
    t.intoCollections ⟨name, .literal⟩ place = [] ↔
      name ∉ (t.document place.node).collections.map (·.1) := by
  have hchild : (t.document place.node).child? name = none ↔
      name ∉ (t.document place.node).collections.map (·.1) := lookup_eq_none_iff_not_mem
  rw [← hchild, intoCollections, if_neg (by exact Bool.false_ne_true)]
  cases (t.document place.node).child? name with
  | none => exact iff_of_true rfl rfl
  | some id => exact iff_of_false (List.cons_ne_nil _ _) (Option.some_ne_none id)

theorem intoDocuments_eq_nil_iff {place : Located Nat} :
    t.intoDocuments ⟨name, .literal⟩ place = [] ↔
      (t.collection place.node).generic? = none ∧
        name ∉ (t.collection place.node).literals.map (·.1) := by
  rw [← Collection.resolve?_eq_none_iff, intoDocuments,
    if_neg (by exact Bool.false_ne_true)]
  cases (t.collection place.node).resolve? name with
  | none => exact iff_of_true rfl rfl
  | some found => exact iff_of_false (List.cons_ne_nil _ _) (Option.some_ne_none found)

/-- A name leads on exactly if the reached nodes declare it or cover all names. -/
theorem size_advance_eq_zero_iff (frontier : Frontier) :
    (t.advance frontier ⟨name, .literal⟩).size = 0 ↔
      frontier.coversAll t = false ∧ name ∉ frontier.declaredNames t := by
  cases frontier with
  | documents places =>
    simp only [advance, Frontier.size, List.length_eq_zero_iff, List.flatMap_eq_nil_iff,
      intoCollections_eq_nil_iff, Frontier.coversAll, Frontier.declaredNames, List.mem_flatMap,
      true_and, not_exists, not_and]
  | collections places =>
    simp only [advance, Frontier.size, List.length_eq_zero_iff, List.flatMap_eq_nil_iff,
      intoDocuments_eq_nil_iff, Frontier.coversAll, Frontier.declaredNames, List.mem_flatMap,
      List.any_eq_false, Option.isSome_iff_ne_none, not_not, not_exists, not_and, forall_and]

theorem declares_concat_eq_false_iff {names : List String} :
    t.declares (.ofNames (names ++ [name])) = false ↔
      (t.nodesAt (.ofNames names)).coversAll t = false ∧
        name ∉ (t.nodesAt (.ofNames names)).declaredNames t := by
  rw [← size_advance_eq_zero_iff, ← nodesAt_ofNames_concat, ← Bool.not_eq_true, declares_iff,
    not_not]

end SchemaTree

namespace Store

open SchemaAtlas.Action

variable {s : Store Handle} {before : Journal Handle}

theorem mem_undeclaredNames {live declared : List String} {coversAll : Bool} {name : String} :
    name ∈ undeclaredNames live declared coversAll ↔
      name ∈ live ∧ coversAll = false ∧ name ∉ declared := by
  cases coversAll with
  | true => simp [undeclaredNames]
  | false => simp [undeclaredNames, mem_sortedDistinct]

theorem pairwise_undeclaredNames (live declared : List String) (coversAll : Bool) :
    (undeclaredNames live declared coversAll).Pairwise (· < ·) := by
  unfold undeclaredNames
  split
  · exact .nil
  · exact pairwise_sortedDistinct _

/-! ### Opening a text -/

/-- Opens the node whose path a text writes, as what the number of its names says. -/
def openText (s : Store Handle) (text : String) : Action Handle (NodeHandle Handle) :=
  s.openNode (Path.ofNames (Path.namesOf text)).kind [.text text]

theorem fails_requireDeclared {t : SchemaTree} {path : Path} (h : t.declares path = false) :
    (requireDeclared t path : Action Handle Unit).Fails before (.path (.undeclared path.text))
      ⟨before.requests, before.entries ++ t.resolutionLog path⟩ := by
  refine fails_bind_iff.2 (.inr ⟨(), _, returns_report_iff.2 rfl, ?_⟩)
  rw [h]
  exact fails_throw_iff.2 ⟨rfl, rfl⟩

theorem fails_openAs {α : Type} (s : Store Handle) (finish : Handle → Path → SchemaUnion → α)
    (before : Journal Handle) {segments : List Value} {path : Path}
    (hpath : pathOfSegments segments = .ok path)
    (h : s.tree.declares path = false) :
    (s.openAs path.kind finish segments).Fails before (.path (.undeclared path.text))
      ⟨before.requests, before.entries ++ s.tree.resolutionLog path⟩ := by
  have hkind : path.require path.kind = .ok path := Path.require_eq_ok_iff.2 ⟨rfl, rfl⟩
  refine fails_bind_iff.2 (.inr ⟨path, before, returns_lift_iff.2 ⟨hpath, rfl⟩, ?_⟩)
  refine fails_bind_iff.2 (.inr ⟨path, before, returns_lift_iff.2 ⟨hkind, rfl⟩, ?_⟩)
  exact fails_bind_iff.2 (.inl (fails_bind_iff.2 (.inl (fails_requireDeclared h))))

variable {text : String} {p : Path}

theorem fails_openText (hpath : Path.ofText false text = .ok p) (h : s.tree.declares p = false) :
    ∃ after, (s.openText text).Fails before (.path (.undeclared text)) after := by
  obtain ⟨-, -, rfl⟩ := Path.ofText_eq_ok_iff_names.1 hpath
  have hsegments : pathOfSegments [.text text] = .ok (Path.ofNames (Path.namesOf text)) := hpath
  have hfails := s.fails_openAs (NodeHandle.ofKind (Path.ofNames (Path.namesOf text)).kind s) before
    hsegments h
  rw [Path.text_namesOf, ← openNode_eq] at hfails
  exact ⟨_, hfails⟩

theorem returns_openText (hpath : Path.ofText false text = .ok p) (h : s.tree.declares p = true) :
    ∃ n after, (s.openText text).Returns before n after := by
  obtain ⟨htext, -, rfl⟩ := Path.ofText_eq_ok_iff_names.1 hpath
  have hne : (Path.ofNames (Path.namesOf text)).texts ≠ [] := by
    rw [Path.texts_ofNames, Path.namesOf_of_ne htext]
    exact (Path.ofText_eq_ok_iff.1 hpath).1
  obtain ⟨handle, requests, hwalk⟩ := s.client.exists_walk_eq hne 0 before.requests none
  have hopened : (s.openText text).Obtains before _ requests :=
    obtains_openNode_iff.2 ⟨_, handle, hpath, rfl, h, hwalk, rfl⟩
  obtain ⟨entries, hreturns⟩ := hopened
  exact ⟨_, _, hreturns⟩

/-- A path is either opened or refused as undeclared. -/
theorem fails_openText_iff (hpath : Path.ofText false text = .ok p) :
    (∃ after, (s.openText text).Fails before (.path (.undeclared text)) after) ↔
      s.tree.declares p = false := by
  constructor
  · rintro ⟨after, hfails⟩
    refine eq_false_of_ne_true fun hdeclared => ?_
    obtain ⟨n, later, hreturns⟩ := returns_openText hpath hdeclared
    exact not_fails_of_run hreturns hfails
  · exact fails_openText hpath

/-! ### Live names -/

/-- The names that the client lists below the node at a row of names. -/
def liveNames (s : Store Handle) (requests : List (Request Handle)) (names : List String) :
    List String :=
  s.client.children (s.client.walk 0 requests none names).2 (s.client.walk 0 requests none names).1

variable {requests : List (Request Handle)} {undeclared : List String}

theorem obtains_undeclaredBelow_iff {frontier : Frontier} {path : Path} :
    (s.undeclaredBelow frontier path.segments).Obtains before undeclared requests ↔
      undeclared = undeclaredNames (s.liveNames before.requests path.texts)
        (frontier.declaredNames s.tree) (frontier.coversAll s.tree) ∧
      requests = (s.client.walk 0 before.requests none path.texts).2 ++
        [.children (s.client.walk 0 before.requests none path.texts).1] := by
  simp only [undeclaredBelow, obtains_bind_iff, returns_requestPath_iff,
    returns_requestChildren_iff, returns_report_iff, obtains_pure_iff]
  constructor
  · rintro ⟨_, ⟨_, _⟩, ⟨hwalk, -⟩, _, _, ⟨rfl, rfl⟩, -, _, rfl, rfl, rfl⟩
    rw [liveNames, Path.texts, hwalk]
    exact ⟨rfl, rfl⟩
  · rintro ⟨rfl, rfl⟩
    exact ⟨_, ⟨_, before.entries⟩, ⟨rfl, rfl⟩, _, _, ⟨rfl, rfl⟩, (), _, rfl, rfl, rfl⟩

/-- The root is looked up like any other node. -/
theorem obtains_undeclaredChildren (s : Store Handle) (before : Journal Handle) {path : String}
    (hpath : path = "" ∨ ∃ p, Path.ofText false path = .ok p ∧ s.tree.declares p = true) :
    (s.undeclaredChildren (.text path)).Obtains before
      (undeclaredNames (s.liveNames before.requests (Path.namesOf path))
        ((s.tree.nodesAt (.ofNames (Path.namesOf path))).declaredNames s.tree)
        ((s.tree.nodesAt (.ofNames (Path.namesOf path))).coversAll s.tree))
      ((s.client.walk 0 before.requests none (Path.namesOf path)).2 ++
        [.children (s.client.walk 0 before.requests none (Path.namesOf path)).1]) := by
  rcases hpath with rfl | ⟨p, hp, hdeclared⟩
  · exact obtains_undeclaredBelow_iff.2 ⟨rfl, rfl⟩
  · obtain ⟨hne, -, rfl⟩ := Path.ofText_eq_ok_iff_names.1 hp
    have hvoid : (Value.text path).isVoid = false :=
      eq_false_of_ne_true (mt String.isEmpty_iff.1 hne)
    rw [undeclaredChildren, hvoid, if_neg Bool.false_ne_true]
    refine obtains_bind_iff.2 ⟨_, _, returns_lift_iff.2 ⟨hp, rfl⟩, ?_⟩
    refine obtains_bind_iff.2 ⟨_, _, returns_nodesAt_iff.2 ⟨rfl, rfl⟩, ?_⟩
    rw [if_neg (SchemaTree.declares_iff.1 hdeclared), obtains_undeclaredBelow_iff,
      Path.texts_ofNames]
    exact ⟨rfl, rfl⟩

/--
Below the root or a declared node, the undeclared children ascend without repetition, and they are the
live names that cannot be opened: the path to such a child is refused as undeclared, whatever was
asked before. Every other live name can be opened.
-/
theorem undeclaredChildren_are_refused (s : Store Handle) (before : Journal Handle) {path : String}
    (hpath : path = "" ∨ ∃ p, Path.ofText false path = .ok p ∧ s.tree.declares p = true)
    (hlive : ∀ name ∈ s.liveNames before.requests (Path.namesOf path), IsName name) :
    ∃ undeclared after, (s.undeclaredChildren (.text path)).Returns before undeclared after ∧
      undeclared.Pairwise (· < ·) ∧
      (∀ name opening, name ∈ undeclared ↔
        name ∈ s.liveNames before.requests (Path.namesOf path) ∧
          ∃ later, (s.openText (Path.childText path name)).Fails opening
            (.path (.undeclared (Path.childText path name))) later) ∧
      ∀ name ∈ s.liveNames before.requests (Path.namesOf path), name ∉ undeclared →
        ∀ opening, ∃ n later, (s.openText (Path.childText path name)).Returns opening n later := by
  have hnames : ∀ name ∈ Path.namesOf path, IsName name := by
    rcases hpath with rfl | ⟨p, hp, -⟩
    · exact nofun
    · exact (Path.ofText_eq_ok_iff_names.1 hp).2.1
  have hchild : ∀ name ∈ s.liveNames before.requests (Path.namesOf path),
      Path.ofText false (Path.childText path name) =
        .ok (.ofNames (Path.namesOf path ++ [name])) := by
    intro name hname
    refine Path.ofText_eq_ok_iff_names.2 ⟨Path.childText_ne_empty path (hlive name hname), ?_⟩
    rw [Path.namesOf_childText path (hlive name hname)]
    exact ⟨List.forall_mem_append.2 ⟨hnames, List.forall_mem_singleton.2 (hlive name hname)⟩, rfl⟩
  obtain ⟨entries, hreturns⟩ := s.obtains_undeclaredChildren before hpath
  refine ⟨_, _, hreturns, pairwise_undeclaredNames _ _ _, fun name opening => ?_, ?_⟩
  · rw [mem_undeclaredNames, ← SchemaTree.declares_concat_eq_false_iff]
    exact and_congr_right fun hname => (fails_openText_iff (hchild name hname)).symm
  · intro name hname hdeclared opening
    rw [mem_undeclaredNames, ← SchemaTree.declares_concat_eq_false_iff, and_iff_right hname,
      Bool.not_eq_false] at hdeclared
    exact returns_openText (hchild name hname) hdeclared

/-- Two posts are declared, of which one is there; other posts and a collection are undeclared. -/
def postsStore : Store String where
  client := {
    child := fun _ parent _ name => parent.getD "" ++ "/" ++ name.getD ""
    children := fun _ parent =>
      if parent = some "/posts" then ["p9", "p1", "\x7bid\x7d", "p9"] else ["logs", "posts"] }
  tree := {
    collections := [(0, ⟨[("p1", .blank 0 "p1"), ("p2", .blank 0 "p2")], none⟩)]
    documents := []
    root := ⟨.empty, [("posts", 0)]⟩ }
  depth := 64

theorem undeclaredChildren_are_refused_posts :
    Path.ofText false "posts" = .ok (.ofNames ["posts"]) ∧
    postsStore.tree.declares (.ofNames ["posts"]) = true ∧
    postsStore.liveNames [] ["posts"] = ["p9", "p1", "\x7bid\x7d", "p9"] ∧
    ∃ undeclared after,
      (postsStore.undeclaredChildren (.text "posts")).Returns .blank undeclared after ∧
      undeclared.Pairwise (· < ·) ∧
      ∀ name opening, name ∈ undeclared ↔ name ∈ ["p9", "p1", "\x7bid\x7d", "p9"] ∧
        ∃ later, (postsStore.openText (Path.childText "posts" name)).Fails opening
          (.path (.undeclared (Path.childText "posts" name))) later := by
  have hpath : Path.ofText false "posts" = .ok (.ofNames ["posts"]) := by decide +kernel
  have hdeclared : postsStore.tree.declares (.ofNames ["posts"]) = true := by decide +kernel
  have hlive : ∀ name ∈ ["p9", "p1", "\x7bid\x7d", "p9"], IsName name := by decide +kernel
  obtain ⟨undeclared, after, hreturns, hordered, hrefused, -⟩ :=
    undeclaredChildren_are_refused postsStore .blank (.inr ⟨_, hpath, hdeclared⟩) hlive
  exact ⟨hpath, hdeclared, rfl, undeclared, after, hreturns, hordered, hrefused⟩

end Store
end SchemaAtlas
