import SchemaAtlas.Proofs.Store.Handles

/-!
# Descents

A node is opened with all names of its path at once, or name by name, every handle below the one
before. Both ways give the same handle and ask the client for the same nodes in the same order. Only
the checks differ: the first way looks up the whole path, the second every path on the way to it as
well, and these are declared where the whole path is.
-/
namespace SchemaAtlas

variable {Handle : Type}

theorem NodeKind.atPosition_length (names : List String) (last : String) :
    NodeKind.atPosition names.length = (Path.ofNames (names ++ [last])).kind.node := by
  rw [NodeKind.atPosition, Path.kind, Path.length_ofNames, List.length_append,
    List.length_singleton]
  rcases Nat.mod_two_eq_zero_or_one names.length with h | h
  · rw [if_pos h, if_pos (by omega)]
    rfl
  · rw [if_neg (by omega), if_neg (by omega)]
    rfl

/-! ### Both ways down -/

namespace Store

variable {s : Store Handle} {before : Journal Handle} {requests : List (Request Handle)}
  {n : NodeHandle Handle}

theorem pathOfSegments_names {names : List String} (hne : names ≠ [])
    (hnames : ∀ name ∈ names, IsName name) :
    pathOfSegments (names.map Value.text) = .ok (.ofNames names) := by
  match names with
  | [] => exact absurd rfl hne
  | [name] =>
    have hsplit := Text.split_of_not_mem (isName_iff.1 (hnames name List.mem_cons_self)).2
    exact Path.ofText_eq_ok_iff.2 (hsplit.symm ▸ ⟨hne, hnames, rfl⟩)
  | first :: second :: rest =>
    exact Path.ofSegments_eq_ok_iff.2 ⟨first :: second :: rest, rfl, hne, hnames, rfl⟩

/-- The handle that is reached name by name from a collection of the root. -/
def descend (s : Store Handle) (first : String) (rest : List String) :
    Action Handle (NodeHandle Handle) := do
  let collection ← s.openNode .collection [.text first]
  rest.foldlM (fun n name => n.child (.text name)) collection

theorem descend_concat (s : Store Handle) (first : String) (rest : List String) (last : String) :
    s.descend first (rest ++ [last]) = s.descend first rest >>= fun n => n.child (.text last) := by
  simp only [descend, List.foldlM_append, List.foldlM_cons, List.foldlM_nil, bind_assoc, bind_pure]

/-- The handle to the node at a row of names, and all requests since and before. -/
structure Reaches (s : Store Handle) (before : Journal Handle) (names : List String)
    (n : NodeHandle Handle) (requests : List (Request Handle)) : Prop where
  declared : s.tree.declares (.ofNames names) = true
  walked : s.client.walk 0 before.requests none names = (some n.handle, requests)
  handle_eq : n = .ofKind (Path.ofNames names).kind s n.handle (.ofNames names)
    (s.tree.unionAt (.ofNames names))

theorem obtains_openNode_names_iff {names : List String} (hne : names ≠ [])
    (hnames : ∀ name ∈ names, IsName name) :
    (s.openNode (Path.ofNames names).kind (names.map Value.text)).Obtains before n requests ↔
      s.Reaches before names n requests := by
  rw [obtains_openNode_iff, pathOfSegments_names hne hnames]
  constructor
  · rintro ⟨path, handle, hpath, -, hdeclared, hwalk, rfl⟩
    obtain rfl := Except.ok.inj hpath
    rw [Path.texts_ofNames] at hwalk
    constructor
    · exact hdeclared
    · rwa [NodeHandle.handle_ofKind]
    · rw [NodeHandle.handle_ofKind]
  · rintro ⟨hdeclared, hwalk, hn⟩
    rw [← Path.texts_ofNames names] at hwalk
    exact ⟨_, _, rfl, rfl, hdeclared, hwalk, hn⟩

/-- One name more is one child more. -/
theorem Reaches.obtains_child_iff {names : List String} {last : String} {between : Journal Handle}
    {below : NodeHandle Handle} (h : s.Reaches before names n between.requests)
    (hnames : ∀ name ∈ names ++ [last], IsName name) :
    (n.child (.text last)).Obtains between below requests ↔
      s.Reaches before (names ++ [last]) below requests := by
  have hstore : n.store = s := by rw [h.handle_eq, NodeHandle.store_ofKind]
  have htexts : n.path.texts = names := by
    rw [h.handle_eq, NodeHandle.path_ofKind, Path.texts_ofNames]
  have hkind : (Path.ofNames (names ++ [last])).kind = n.kind.other := by
    rw [Path.kind_ofNames_concat, h.handle_eq, NodeHandle.kind_ofKind]
  have hwalk : s.client.walk 0 before.requests none (names ++ [last]) =
      (some (s.client.child between.requests (some n.handle) n.kind.other.node (some last)),
        between.requests ++ [.child (some n.handle) n.kind.other.node (some last)]) := by
    rw [Client.walk_concat, h.walked, Nat.zero_add, NodeKind.atPosition_length names last, hkind]
  rw [NodeHandle.obtains_child_iff, hstore, htexts]
  constructor
  · rintro ⟨_, hlast, -, hdeclared, -, rfl, rfl⟩
    obtain rfl := Value.text.inj hlast
    constructor
    · exact hdeclared
    · rw [hwalk, NodeHandle.handle_ofKind]
    · rw [NodeHandle.handle_ofKind, hkind]
  · rintro ⟨hdeclared, hwalked, hbelow⟩
    obtain ⟨hhandle, rfl⟩ := Prod.mk.inj (hwalk.symm.trans hwalked)
    rw [hkind, ← Option.some.inj hhandle] at hbelow
    exact ⟨last, rfl, hnames, hdeclared, hkind, hbelow, rfl⟩

/-- Whatever is reached by more names than one is reached through a handle to the node above. -/
theorem Reaches.exists_above {names : List String} {last : String} (hne : names ≠ [])
    (h : s.Reaches before (names ++ [last]) n requests) :
    ∃ above between, s.Reaches before names above between := by
  obtain ⟨handle, between, hwalk⟩ := s.client.exists_walk_eq hne 0 before.requests none
  refine ⟨.ofKind (Path.ofNames names).kind s handle (.ofNames names)
    (s.tree.unionAt (.ofNames names)), between, SchemaTree.declares_of_concat h.declared, ?_, ?_⟩
  · rw [hwalk, NodeHandle.handle_ofKind]
  · rw [NodeHandle.handle_ofKind]

theorem obtains_descend_iff {first : String} {rest : List String}
    (hnames : ∀ name ∈ first :: rest, IsName name) :
    (s.descend first rest).Obtains before n requests ↔
      s.Reaches before (first :: rest) n requests := by
  induction rest using List.reverseRecOn generalizing n requests with
  | nil =>
    rw [← obtains_openNode_names_iff (List.cons_ne_nil first []) hnames, descend]
    simp only [List.foldlM_nil, bind_pure]
    rfl
  | append_singleton rest last ih =>
    rw [← List.cons_append] at hnames ⊢
    have hrest : ∀ name ∈ first :: rest, IsName name :=
      fun name h => hnames name (List.mem_append_left [last] h)
    rw [descend_concat, Action.obtains_bind_iff]
    constructor
    · rintro ⟨above, between, hreturns, hchild⟩
      have hreaches := (ih hrest).1 ⟨between.entries, hreturns⟩
      exact (hreaches.obtains_child_iff hnames).1 hchild
    · intro h
      obtain ⟨above, requests, hreaches⟩ := h.exists_above (List.cons_ne_nil first rest)
      obtain ⟨entries, hreturns⟩ := (ih hrest).2 hreaches
      exact ⟨above, ⟨requests, entries⟩, hreturns, (hreaches.obtains_child_iff hnames).2 h⟩

/--
Opening a path of names at once and going down name by name succeed together, with the same handle
after the same requests.
-/
theorem obtains_openNode_iff_descend {first : String} {rest : List String}
    (hnames : ∀ name ∈ first :: rest, IsName name) :
    (s.openNode (Path.ofNames (first :: rest)).kind ((first :: rest).map Value.text)).Obtains before
        n requests ↔
      (s.descend first rest).Obtains before n requests := by
  rw [obtains_openNode_names_iff (List.cons_ne_nil first rest) hnames, obtains_descend_iff hnames]

/-- The name in braces is a name like any other for both. -/
theorem obtains_descend_person : ∃ t, SchemaTree.ofGraph peopleGraph .default = .ok t ∧
    ((peopleStore t).descend "people" [genericLabel]).Obtains .blank
      (.ofKind .document (peopleStore t) 1 person (t.unionAt person))
      [.child none .collection (some "people"), .child (some 0) .document (some genericLabel)] := by
  obtain ⟨t, ht, -, hplaces, -⟩ := ofGraph_peopleGraph
  have hnames : ∀ name ∈ ["people", genericLabel], IsName name := by decide
  have hreaches : (peopleStore t).Reaches .blank ["people", genericLabel]
      (.ofKind .document (peopleStore t) 1 person (t.unionAt person))
      [.child none .collection (some "people"), .child (some 0) .document (some genericLabel)] := by
    constructor
    · exact SchemaTree.declares_concat_of_generic hplaces
    · rfl
    · rfl
  have hopened := (obtains_openNode_names_iff (List.cons_ne_nil _ _) hnames).2 hreaches
  exact ⟨t, ht, (obtains_openNode_iff_descend hnames).1 hopened⟩

end Store
end SchemaAtlas
