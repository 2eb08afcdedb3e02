import SchemaAtlas.Proofs.Store.Handles
import SchemaAtlas.Store.Undeclared

/-!
# Failing calls

A call on a store or on a handle may fail while it checks what it was given, and once it has asked
its client for a node it cannot fail any more. The checks ask for nothing, so a call that fails
leaves the client as it was.
-/
namespace SchemaAtlas

variable {Handle α β : Type}

/-- The faults of calls: a path that is not one or leads nowhere, and a search to no depth. -/
inductive Fault.Refuses : Fault → Prop
  | path (error : PathError) : Refuses (.path error)
  | depth : Refuses (.group .depth)

namespace Action

/-- An action that always gives a result. -/
def Sure (x : Action Handle α) : Prop :=
  ∀ ⦃before e after⦄, ¬ x.Fails before e after

/-- An action that fails only by refusing, and only as long as it has asked for nothing. -/
def ChecksFirst (x : Action Handle α) : Prop :=
  ∀ ⦃before e after⦄, x.Fails before e after → after.requests = before.requests ∧ e.Refuses

/-- An action that checks first and asks for nothing afterwards either. -/
structure IsCheck (x : Action Handle α) : Prop where
  checksFirst : x.ChecksFirst
  silent : ∀ ⦃before a after⦄, x.Returns before a after → after.requests = before.requests

variable {x : Action Handle α} {f : α → Action Handle β} {t : SchemaTree}

theorem sure_of_run (h : ∀ before, ∃ a after, x.run.run before = (.ok a, after)) : x.Sure := by
  intro before e after hfails
  obtain ⟨a, other, hx⟩ := h before
  exact not_fails_of_run hx hfails

theorem Sure.bind (hx : x.Sure) (hf : ∀ a, (f a).Sure) : (x >>= f).Sure := by
  intro before e after h
  rcases fails_bind_iff.1 h with h | ⟨a, between, -, h⟩
  · exact hx h
  · exact hf a h

theorem Sure.checksFirst (hx : x.Sure) : x.ChecksFirst :=
  fun before e after h => absurd h (@hx before e after)

theorem IsCheck.bind_checksFirst (hx : x.IsCheck) (hf : ∀ a, (f a).ChecksFirst) :
    (x >>= f).ChecksFirst := by
  intro before e after h
  rcases fails_bind_iff.1 h with h | ⟨a, between, hreturns, h⟩
  · exact hx.checksFirst h
  · obtain ⟨hrequests, hrefuses⟩ := hf a h
    exact ⟨hrequests.trans (hx.silent hreturns), hrefuses⟩

theorem IsCheck.bind (hx : x.IsCheck) (hf : ∀ a, (f a).IsCheck) : (x >>= f).IsCheck := by
  refine ⟨hx.bind_checksFirst fun a => (hf a).checksFirst, ?_⟩
  intro before b after h
  obtain ⟨a, between, ha, hb⟩ := returns_bind_iff.1 h
  exact ((hf a).silent hb).trans (hx.silent ha)

/-! ### The parts of calls -/

theorem sure_pure (a : α) : (pure a : Action Handle α).Sure :=
  sure_of_run fun before => ⟨a, before, rfl⟩

theorem sure_report (entries : List LogEntry) : (report entries : Action Handle Unit).Sure :=
  sure_of_run fun before => ⟨(), ⟨before.requests, before.entries ++ entries⟩, rfl⟩

theorem sure_requestChild (client : Client Handle) (parent : Option Handle) (kind : NodeKind)
    (name : Option String) : (requestChild client parent kind name).Sure :=
  sure_of_run fun _ => ⟨_, _, rfl⟩

theorem sure_requestChildren (client : Client Handle) (parent : Option Handle) :
    (requestChildren client parent).Sure :=
  sure_of_run fun _ => ⟨_, _, rfl⟩

theorem sure_requestPath (client : Client Handle) (position : Nat) (parent : Option Handle)
    (segments : List Segment) : (requestPath client position parent segments).Sure := by
  induction segments generalizing position parent with
  | nil => exact sure_pure parent
  | cons segment rest ih =>
    exact (sure_requestChild client parent _ _).bind fun handle => ih (position + 1) (some handle)

theorem isCheck_pure (a : α) : (pure a : Action Handle α).IsCheck :=
  ⟨(sure_pure a).checksFirst, fun _ _ _ h => congrArg _ (returns_pure_iff.1 h).2⟩

theorem isCheck_throw {e : Fault} (he : e.Refuses) : (throw e : Action Handle α).IsCheck := by
  constructor
  · intro before fault after h
    obtain ⟨rfl, rfl⟩ := fails_throw_iff.1 h
    exact ⟨rfl, he⟩
  · exact fun before a after h => absurd h not_returns_throw

theorem isCheck_report (entries : List LogEntry) :
    (report entries : Action Handle Unit).IsCheck := by
  refine ⟨(sure_report entries).checksFirst, fun before a after h => ?_⟩
  rw [returns_report_iff.1 h]

theorem isCheck_lift {ε : Type} {wrap : ε → Fault} (hwrap : ∀ e, (wrap e).Refuses)
    (result : Except ε α) : (lift wrap result : Action Handle α).IsCheck := by
  cases result with
  | ok a => exact isCheck_pure a
  | error e => exact isCheck_throw (hwrap e)

theorem isCheck_nodesAt (path : Path) : (nodesAt t path : Action Handle Frontier).IsCheck :=
  (isCheck_report _).bind fun _ => isCheck_pure _

theorem isCheck_unionAt (path : Path) : (unionAt t path : Action Handle SchemaUnion).IsCheck :=
  (isCheck_report _).bind fun _ => isCheck_pure _

theorem isCheck_unionOfKind (kind : PathKind) (path : Path) :
    (unionOfKind t kind path : Action Handle SchemaUnion).IsCheck :=
  (isCheck_lift .path _).bind fun path => isCheck_unionAt path

theorem isCheck_requireDeclared (path : Path) :
    (Store.requireDeclared t path : Action Handle Unit).IsCheck := by
  refine (isCheck_report _).bind fun _ => ?_
  split
  · exact isCheck_pure ()
  · exact isCheck_throw (.path _)

theorem checkDepth_eq_error {depth : Int} {e : GroupError}
    (h : SchemaTree.checkDepth depth = .error e) : e = .depth := by
  unfold SchemaTree.checkDepth at h
  split at h
  · exact (Except.error.inj h).symm
  · cases h

theorem isCheck_collectionGroup (name : Value) (depth : Int) :
    (collectionGroup t name depth : Action Handle SchemaUnion).IsCheck := by
  refine (isCheck_lift .path _).bind fun text => ?_
  have hdepth : (lift .group (SchemaTree.checkDepth depth) : Action Handle Nat).IsCheck := by
    cases h : SchemaTree.checkDepth depth with
    | ok levels => exact isCheck_pure levels
    | error e =>
      rw [checkDepth_eq_error h]
      exact isCheck_throw .depth
  exact hdepth.bind fun levels => (isCheck_report _).bind fun _ => isCheck_pure _

end Action

/-! ### The calls -/

namespace Store

open SchemaAtlas.Action

variable {s : Store Handle} {kind : PathKind} {finish : Handle → Path → SchemaUnion → α}

theorem checksFirst_openPath (path : Path) : (s.openPath path).ChecksFirst :=
  (isCheck_requireDeclared path).bind_checksFirst fun _ =>
    (isCheck_unionAt path).bind_checksFirst fun _ =>
      ((sure_requestPath s.client 0 none path.segments).bind fun _ =>
        (sure_report _).bind fun _ => sure_pure _).checksFirst

/-- No handle is found only where no node was asked for. -/
theorem requests_of_openPath_none {path : Path} {schemas : SchemaUnion}
    {before after : Journal Handle} (h : (s.openPath path).Returns before (none, schemas) after) :
    after.requests = before.requests := by
  obtain ⟨-, hwalk, -⟩ := obtains_openPath_iff.1 ⟨after.entries, h⟩
  by_cases hne : path.texts = []
  · rw [hne] at hwalk
    exact (Prod.mk.inj hwalk).2.symm
  · obtain ⟨handle, requests, hwalked⟩ := s.client.exists_walk_eq hne 0 before.requests none
    cases (Prod.mk.inj (hwalked.symm.trans hwalk)).1

theorem checksFirst_openAs (segments : List Value) :
    (s.openAs kind finish segments).ChecksFirst := by
  refine (isCheck_lift .path _).bind_checksFirst fun path => ?_
  refine (isCheck_lift .path _).bind_checksFirst fun path => ?_
  intro before e after h
  rcases fails_bind_iff.1 h with h | ⟨⟨handle, schemas⟩, between, hopened, h⟩
  · exact checksFirst_openPath path h
  · cases handle with
    | some handle => exact absurd h (@sure_pure _ _ _ between e after)
    | none =>
      obtain ⟨rfl, rfl⟩ := fails_throw_iff.1 h
      exact ⟨requests_of_openPath_none hopened, .path _⟩

theorem checksFirst_openBelow (parent : Handle) (texts : List String) (name : Value) :
    (s.openBelow parent texts kind finish name).ChecksFirst :=
  (isCheck_lift .path _).bind_checksFirst fun path =>
    (isCheck_requireDeclared path).bind_checksFirst fun _ =>
      (isCheck_unionOfKind kind path).bind_checksFirst fun _ =>
        ((sure_requestChild s.client (some parent) kind.node _).bind fun _ =>
          sure_pure _).checksFirst

theorem checksFirst_collectionGroup (name : Value) : (s.collectionGroup name).ChecksFirst :=
  (isCheck_lift .path _).bind_checksFirst fun _ =>
    (isCheck_collectionGroup name s.depth).bind_checksFirst fun _ =>
      ((sure_requestChild s.client none .collectionGroup _).bind fun _ => sure_pure _).checksFirst

theorem sure_undeclaredBelow (frontier : Frontier) (segments : List Segment) :
    (s.undeclaredBelow frontier segments).Sure :=
  (sure_requestPath s.client 0 none segments).bind fun handle =>
    (sure_requestChildren s.client handle).bind fun _ =>
      (sure_report _).bind fun _ => sure_pure _

theorem checksFirst_undeclaredChildren (path : Value) :
    (s.undeclaredChildren path).ChecksFirst := by
  unfold undeclaredChildren
  split
  · exact (sure_undeclaredBelow _ _).checksFirst
  · refine (isCheck_lift .path _).bind_checksFirst fun path => ?_
    refine (isCheck_nodesAt path).bind_checksFirst fun frontier => ?_
    split
    · exact (isCheck_throw (.path _)).checksFirst
    · exact (sure_undeclaredBelow _ _).checksFirst

end Store

namespace CollectionHandle

open SchemaAtlas.Action

variable {c : CollectionHandle Handle}

/-- Below checked names, the label of generic documents cannot be refused after the request. -/
theorem checksFirst_generatedDocument (hc : c.path.Checked) : c.generatedDocument.ChecksFirst := by
  have hnames : ∀ text ∈ c.path.texts ++ [genericLabel], IsName text := by
    intro text htext
    rcases List.mem_append.1 htext with h | h
    · exact hc.names text h
    · obtain rfl := List.mem_singleton.1 h
      decide
  have hpath := Path.ofSegments_concat_eq_ok_iff.2 ⟨genericLabel, rfl, hnames, rfl⟩
  refine (isCheck_nodesAt c.path).bind_checksFirst fun frontier => ?_
  split
  · exact (isCheck_throw (.path _)).checksFirst
  · rw [hpath]
    exact ((sure_requestChild c.store.client (some c.handle) .document none).bind fun _ =>
      sure_pure _).checksFirst

theorem checksFirst_documentOfValue (hc : c.path.Checked) (name : Value) :
    (c.documentOfValue name).ChecksFirst := by
  unfold documentOfValue
  split
  · exact checksFirst_generatedDocument hc
  · rw [document_eq]
    exact Store.checksFirst_openBelow c.handle c.path.texts name

end CollectionHandle

/-- Not a path, unless one that was checked when it was made. -/
def Value.PathChecked (v : Value) : Prop := ∀ path, v = .path path → path.Checked

theorem Store.Gives.checked {s : Store Handle} {naming : Naming} {n : NodeHandle Handle}
    (h : s.Gives Value.PathChecked naming n) : n.path.Checked := by
  cases h with
  | opened hsegments h =>
    obtain ⟨path, handle, hpath, -, -, -, rfl⟩ := obtains_openNode_iff.1 ⟨_, h⟩
    rw [NodeHandle.path_ofKind]
    rcases eq_path_or_exists_names hpath with rfl | ⟨names, hne, hnames, rfl⟩
    · exact hsegments _ List.mem_cons_self path rfl
    · exact .ofNames hne hnames
  | child hn hname h =>
    obtain ⟨last, -, hnames, -, -, rfl, -⟩ := NodeHandle.obtains_child_iff.1 ⟨_, h⟩
    rw [NodeHandle.path_ofKind]
    exact .ofNames (by simp) hnames
  | generated hc h =>
    obtain ⟨-, hnames, rfl, -⟩ := CollectionHandle.obtains_generatedDocument_iff.1 ⟨_, h⟩
    exact Path.Checked.ofNames (by simp) hnames

/-- Some call on a store, or on a handle that it has given, fails. -/
inductive Store.CallFails (s : Store Handle) (before : Journal Handle) (e : Fault)
    (after : Journal Handle) : Prop
  | collection {segments} (h : (s.collection segments).Fails before e after)
  | document {segments} (h : (s.document segments).Fails before e after)
  | collectionGroup {name} (h : (s.collectionGroup name).Fails before e after)
  | undeclaredChildren {path} (h : (s.undeclaredChildren path).Fails before e after)
  | documentOfValue {naming c name} (hc : s.Gives Value.PathChecked naming (.collection c))
    (h : (c.documentOfValue name).Fails before e after)
  | subcollection {naming d name} (hd : s.Gives Value.PathChecked naming (.document d))
    (h : (d.collection name).Fails before e after)

/-- A call that fails was refused and has asked the client for nothing. -/
theorem Store.CallFails.requests_eq {s : Store Handle} {before after : Journal Handle} {e : Fault}
    (h : s.CallFails before e after) : after.requests = before.requests ∧ e.Refuses := by
  cases h with
  | collection h =>
    rw [collection_eq] at h
    exact checksFirst_openAs _ h
  | document h =>
    rw [document_eq] at h
    exact checksFirst_openAs _ h
  | collectionGroup h => exact checksFirst_collectionGroup _ h
  | undeclaredChildren h => exact checksFirst_undeclaredChildren _ h
  | documentOfValue hc h => exact CollectionHandle.checksFirst_documentOfValue hc.checked _ h
  | subcollection hd h =>
    rw [DocumentHandle.collection_eq] at h
    exact checksFirst_openBelow _ _ _ h

/-- One segment leads to no document; what was asked for before stays. -/
theorem requests_eq_people : ∃ t e after, SchemaTree.ofGraph peopleGraph .default = .ok t ∧
    (peopleStore t).CallFails ⟨[.child none .collection (some "people")], []⟩ e after ∧
    after.requests = [.child none .collection (some "people")] := by
  obtain ⟨t, ht, -⟩ := ofGraph_peopleGraph
  have hfails : ((peopleStore t).document [.text "people"]).Fails
      ⟨[.child none .collection (some "people")], []⟩ _ _ := rfl
  have hcall := Store.CallFails.document hfails
  exact ⟨t, _, _, ht, hcall, hcall.requests_eq.1⟩

end SchemaAtlas
