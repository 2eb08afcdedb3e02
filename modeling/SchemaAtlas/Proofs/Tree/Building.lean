import SchemaAtlas.Proofs.Except
import SchemaAtlas.Proofs.Tree.Names
import SchemaAtlas.Tree.Declaration

/-!
# What building a tree leaves behind

A node is registered before the entries inside it are checked, so while a tree is built the register
refers to mappings that are not in it yet. The invariant below says that each such entry is still to
be checked; when nothing is left to check, everything that a registered node holds is registered. It
is preserved by every visit, whatever the mappings share and wherever they refer back to.
-/
namespace SchemaAtlas.Declaration

variable {g : Graph} {keys : ReservedKeys}

/-- What one visit can do: how far the register grows, and what is then still to be checked. -/
inductive Visited (g : Graph) (keys : ReservedKeys) (p : Progress) :
    Pending → Progress → List Pending → Prop
  | oldCollection {location key id entries} : g.entries? (.node id) = some entries →
      id ∈ p.seenCollections → Visited g keys p ⟨.collection, location, key, .node id⟩ p []
  | newCollection {location key id entries inside} : g.entries? (.node id) = some entries →
      id ∉ p.seenCollections →
      Visited g keys p ⟨.collection, location, key, .node id⟩
        ⟨(id, collectionOf keys id entries) :: p.collections, p.documents⟩
        (pendingEntries .document inside entries)
  | blankDocument {location key} : Visited g keys p ⟨.document, location, key, .leaf .null⟩ p []
  | oldDocument {location key id entries} : g.entries? (.node id) = some entries →
      id ∈ p.seenDocuments → Visited g keys p ⟨.document, location, key, .node id⟩ p []
  | newDocument {location key id entries inside schema} : g.entries? (.node id) = some entries →
      id ∉ p.seenDocuments → schemaOf g keys inside entries = .ok schema →
      Visited g keys p ⟨.document, location, key, .node id⟩
        ⟨p.collections,
          (id, ⟨schema, collectionIds (subcollections keys entries)⟩) :: p.documents⟩
        (pendingEntries .collection inside (subcollections keys entries))

theorem nodeName_eq_ok {role : NodeRole} {location : List String} {key : Value} {name : String}
    (h : nodeName role location key = .ok name) : key = .text name ∧ IsName name := by
  unfold nodeName at h
  split at h
  · rename_i text
    split at h
    · cases h
    · rename_i hempty
      split at h
      · cases h
      · rename_i hseparator
        obtain rfl := Except.ok.inj h
        exact ⟨rfl, Bool.eq_false_iff.2 hempty, Bool.eq_false_iff.2 hseparator⟩
  · cases h

theorem visitCollection_eq_ok {p p' : Progress} {location inside : List String} {key : Value}
    {part : Part} {more : List Pending}
    (h : visitCollection g keys p inside part = .ok (p', more)) :
    Visited g keys p ⟨.collection, location, key, part⟩ p' more := by
  unfold visitCollection at h
  split at h
  · cases h
  · split at h
    · cases h
    · rename_i he
      split at h
      · rename_i hs
        obtain ⟨rfl, rfl⟩ := Prod.mk.inj (Except.ok.inj h)
        exact .oldCollection he (List.contains_iff_mem.1 hs)
      · rename_i hs
        obtain ⟨rfl, rfl⟩ := Prod.mk.inj (Except.ok.inj h)
        exact .newCollection he fun hm => hs (List.contains_iff_mem.2 hm)

theorem visitDocument_eq_ok {p p' : Progress} {location inside : List String} {key : Value}
    {part : Part} {more : List Pending}
    (h : visitDocument g keys p inside part = .ok (p', more)) :
    Visited g keys p ⟨.document, location, key, part⟩ p' more := by
  unfold visitDocument at h
  split at h
  · split at h
    · obtain ⟨rfl, rfl⟩ := Prod.mk.inj (Except.ok.inj h)
      exact .blankDocument
    · cases h
  · split at h
    · cases h
    · rename_i he
      split at h
      · rename_i hs
        obtain ⟨rfl, rfl⟩ := Prod.mk.inj (Except.ok.inj h)
        exact .oldDocument he (List.contains_iff_mem.1 hs)
      · rename_i hs
        split at h
        · cases h
        · rename_i hschema
          obtain ⟨rfl, rfl⟩ := Prod.mk.inj (Except.ok.inj h)
          exact .newDocument he (fun hm => hs (List.contains_iff_mem.2 hm)) hschema

theorem visit_eq_ok {p p' : Progress} {pending : Pending} {more : List Pending}
    (h : visit g keys p pending = .ok (p', more)) :
    (∃ name, pending.key = .text name ∧ IsName name) ∧ Visited g keys p pending p' more := by
  obtain ⟨role, location, key, part⟩ := pending
  unfold visit at h
  split at h
  · cases h
  · rename_i name hname
    refine ⟨⟨name, nodeName_eq_ok hname⟩, ?_⟩
    cases role with
    | collection => exact visitCollection_eq_ok h
    | document => exact visitDocument_eq_ok h

/-- A node has its place in the register. -/
def Registered (p : Progress) : NodeRole → Nat → Prop
  | .collection, id => id ∈ p.seenCollections
  | .document, id => id ∈ p.seenDocuments

/--
An entry has a name and is what it has to be: a registered mapping, or a document without anything.
-/
def Settled (g : Graph) (p : Progress) (role : NodeRole) (entry : Value × Part) : Prop :=
  (∃ name, entry.1 = .text name ∧ IsName name) ∧
    (role = .document ∧ entry.2 = .leaf .null ∨
      ∃ id entries, entry.2 = .node id ∧ g.entries? (.node id) = some entries ∧
        Registered p role id)

/-- An entry that a registered node holds, with what it has to be. -/
inductive Held (g : Graph) (keys : ReservedKeys) (p : Progress) : NodeRole → Value × Part → Prop
  | document {id entries entry} : id ∈ p.seenCollections → g.entries? (.node id) = some entries →
      entry ∈ entries → Held g keys p .document entry
  | collection {id entries entry} : id ∈ p.seenDocuments → g.entries? (.node id) = some entries →
      entry ∈ subcollections keys entries → Held g keys p .collection entry

def Awaited (pending : List Pending) (role : NodeRole) (entry : Value × Part) : Prop :=
  ∃ e ∈ pending, e.role = role ∧ (e.key, e.part) = entry

/-- Every registered node is made from the mapping of its number. -/
structure Faithful (g : Graph) (keys : ReservedKeys) (p : Progress) : Prop where
  collections : ∀ id c, (id, c) ∈ p.collections →
    ∃ entries, g.entries? (.node id) = some entries ∧ c = collectionOf keys id entries
  documents : ∀ id d, (id, d) ∈ p.documents →
    ∃ entries location schema, g.entries? (.node id) = some entries ∧
      schemaOf g keys location entries = .ok schema ∧
      d = ⟨schema, collectionIds (subcollections keys entries)⟩

/-- The invariant of building: what registered nodes hold is registered, or still to be checked. -/
structure Invariant (g : Graph) (keys : ReservedKeys) (p : Progress) (pending : List Pending) :
    Prop where
  faithful : Faithful g keys p
  covered : ∀ role entry, Held g keys p role entry →
    Settled g p role entry ∨ Awaited pending role entry

theorem invariant_none (pending : List Pending) : Invariant g keys .none pending := by
  refine ⟨⟨?_, ?_⟩, ?_⟩
  · intro id c h
    exact absurd h List.not_mem_nil
  · intro id d h
    exact absurd h List.not_mem_nil
  · intro role entry h
    cases h with
    | document h => exact absurd h List.not_mem_nil
    | collection h => exact absurd h List.not_mem_nil

theorem Visited.registered {p p' : Progress} {e : Pending} {more : List Pending}
    (h : Visited g keys p e p' more) {role : NodeRole} {id : Nat} (hr : Registered p role id) :
    Registered p' role id := by
  cases h with
  | oldCollection | blankDocument | oldDocument => exact hr
  | newCollection =>
    cases role with
    | collection => exact List.mem_cons_of_mem _ hr
    | document => exact hr
  | newDocument =>
    cases role with
    | collection => exact hr
    | document => exact List.mem_cons_of_mem _ hr

theorem Settled.of_registered {p p' : Progress} {role : NodeRole} {entry : Value × Part}
    (h : Settled g p role entry)
    (hr : ∀ role id, Registered p role id → Registered p' role id) : Settled g p' role entry := by
  obtain ⟨hname, hblank | ⟨id, entries, hpart, he, hid⟩⟩ := h
  · exact ⟨hname, .inl hblank⟩
  · exact ⟨hname, .inr ⟨id, entries, hpart, he, hr role id hid⟩⟩

/-- The entry that is visited is what it has to be from then on. -/
theorem Visited.settled {p p' : Progress} {e : Pending} {more : List Pending}
    (h : Visited g keys p e p' more) (hname : ∃ name, e.key = .text name ∧ IsName name) :
    Settled g p' e.role (e.key, e.part) := by
  refine ⟨hname, ?_⟩
  cases h with
  | oldCollection he hs | oldDocument he hs => exact .inr ⟨_, _, rfl, he, hs⟩
  | blankDocument => exact .inl ⟨rfl, rfl⟩
  | newCollection he | newDocument he => exact .inr ⟨_, _, rfl, he, List.mem_cons_self⟩

theorem Visited.faithful {p p' : Progress} {e : Pending} {more : List Pending}
    (h : Visited g keys p e p' more) (hf : Faithful g keys p) : Faithful g keys p' := by
  cases h with
  | oldCollection | blankDocument | oldDocument => exact hf
  | newCollection he =>
    refine ⟨fun id c hc => ?_, hf.documents⟩
    rcases List.mem_cons.1 hc with heq | hc
    · obtain ⟨rfl, rfl⟩ := Prod.mk.inj heq
      exact ⟨_, he, rfl⟩
    · exact hf.collections id c hc
  | newDocument he _ hschema =>
    refine ⟨hf.collections, fun id d hd => ?_⟩
    rcases List.mem_cons.1 hd with heq | hd
    · obtain ⟨rfl, rfl⟩ := Prod.mk.inj heq
      exact ⟨_, _, _, he, hschema, rfl⟩
    · exact hf.documents id d hd

theorem awaited_pendingEntries {role : NodeRole} {location : List String}
    {entries : List (Value × Part)} {entry : Value × Part} (h : entry ∈ entries)
    (rest : List Pending) : Awaited (pendingEntries role location entries ++ rest) role entry :=
  ⟨_, List.mem_append_left rest (List.mem_map_of_mem h), rfl, rfl⟩

/-- What a registered node holds after a visit it held before, or is now still to be checked. -/
theorem Visited.held {p p' : Progress} {e : Pending} {more : List Pending}
    (h : Visited g keys p e p' more) {role : NodeRole} {entry : Value × Part}
    (hheld : Held g keys p' role entry) (rest : List Pending) :
    Held g keys p role entry ∨ Awaited (more ++ rest) role entry := by
  cases h with
  | oldCollection | blankDocument | oldDocument => exact .inl hheld
  | newCollection he =>
    cases hheld with
    | document hid hentries hmem =>
      rcases List.mem_cons.1 hid with rfl | hid
      · obtain rfl := Option.some.inj (he.symm.trans hentries)
        exact .inr (awaited_pendingEntries hmem rest)
      · exact .inl (.document hid hentries hmem)
    | collection hid hentries hmem => exact .inl (.collection hid hentries hmem)
  | newDocument he =>
    cases hheld with
    | document hid hentries hmem => exact .inl (.document hid hentries hmem)
    | collection hid hentries hmem =>
      rcases List.mem_cons.1 hid with rfl | hid
      · obtain rfl := Option.some.inj (he.symm.trans hentries)
        exact .inr (awaited_pendingEntries hmem rest)
      · exact .inl (.collection hid hentries hmem)

/-- One visit keeps the invariant. -/
theorem Invariant.visit {p p' : Progress} {e : Pending} {rest more : List Pending}
    (hinv : Invariant g keys p (e :: rest)) (h : Visited g keys p e p' more)
    (hname : ∃ name, e.key = .text name ∧ IsName name) : Invariant g keys p' (more ++ rest) := by
  refine ⟨h.faithful hinv.faithful, fun role entry hheld => ?_⟩
  rcases h.held hheld rest with hold | hnew
  -- what waited is waiting still, save for the entry just visited, which is settled now
  · rcases hinv.covered role entry hold with hsettled | ⟨e', he', hrole, hentry⟩
    · exact .inl (hsettled.of_registered fun _ _ => h.registered)
    · rcases List.mem_cons.1 he' with rfl | he'
      · subst hrole hentry
        exact .inl (h.settled hname)
      · exact .inr ⟨e', List.mem_append_right more he', hrole, hentry⟩
  · exact .inr hnew

/-- A whole run keeps the invariant, forgets nothing and settles every entry it was given. -/
theorem visitAll_eq_ok {p p' : Progress} {pending : List Pending}
    (h : visitAll g keys p pending = .ok p') (hinv : Invariant g keys p pending) :
    Invariant g keys p' [] ∧ (∀ role id, Registered p role id → Registered p' role id) ∧
      ∀ e ∈ pending, Settled g p' e.role (e.key, e.part) := by
  fun_induction visitAll g keys p pending with
  | case1 p =>
    obtain rfl := Except.ok.inj h
    exact ⟨hinv, fun _ _ hr => hr, fun e he => absurd he List.not_mem_nil⟩
  | case2 => cases h
  | case3 p e rest p₁ more hvisit ih =>
    obtain ⟨hname, hvisited⟩ := visit_eq_ok hvisit
    obtain ⟨hfinal, hmono, hsettled⟩ := ih h (hinv.visit hvisited hname)
    -- no later visit forgets a node, so what this one settles stays settled
    refine ⟨hfinal, fun role id hr => hmono role id (hvisited.registered hr), fun e' he' => ?_⟩
    rcases List.mem_cons.1 he' with rfl | he'
    · exact (hvisited.settled hname).of_registered hmono
    · exact hsettled e' (List.mem_append_right more he')

/-- When nothing is left to check, everything that a registered node holds is settled. -/
theorem Invariant.settled {p : Progress} (h : Invariant g keys p []) {role : NodeRole}
    {entry : Value × Part} (hheld : Held g keys p role entry) : Settled g p role entry := by
  rcases h.covered role entry hheld with hs | ⟨e, he, _⟩
  · exact hs
  · exact absurd he List.not_mem_nil

theorem ofGraph_eq_ok {t : SchemaTree} (h : SchemaTree.ofGraph g keys = .ok t) :
    ∃ entries p, g.entries? g.root = some entries ∧
      t = ⟨p.collections, p.documents, ⟨Schema.empty, collectionIds entries⟩⟩ ∧
      Invariant g keys p [] ∧ ∀ entry ∈ entries, Settled g p .collection entry := by
  unfold SchemaTree.ofGraph at h
  split at h
  · cases h
  · rename_i entries hroot
    obtain ⟨p, hp, htree⟩ := exists_of_map_eq_ok h
    obtain ⟨hinv, _, hsettled⟩ := visitAll_eq_ok hp (invariant_none _)
    refine ⟨entries, p, hroot, htree.symm, hinv, fun entry hentry => ?_⟩
    exact hsettled _ (List.mem_map_of_mem hentry)

/-! ### The register of a run -/

theorem exists_lookup {α : Type} {id : Nat} {register : List (Nat × α)}
    (h : id ∈ register.map (·.1)) : ∃ value, register.lookup id = some value := by
  obtain ⟨entry, hentry, rfl⟩ := List.mem_map.1 h
  exact Option.isSome_iff_exists.1 (List.lookup_isSome_iff.2 ⟨entry, hentry, beq_self_eq_true _⟩)

theorem entriesUnder_eq {id : Nat} {entries : List (Value × Part)}
    (h : g.entries? (.node id) = some entries) : entriesUnder g id = entries := by
  rw [entriesUnder, h, Option.getD_some]

theorem Faithful.lookup_collection {p : Progress} (hf : Faithful g keys p) {id : Nat}
    (hid : id ∈ p.seenCollections) :
    g.entries? (.node id) = some (entriesUnder g id) ∧
      p.collections.lookup id = some (collectionOf keys id (entriesUnder g id)) := by
  obtain ⟨c, hc⟩ := exists_lookup hid
  obtain ⟨entries, he, rfl⟩ := hf.collections id c (mem_of_lookup hc)
  rw [entriesUnder_eq he]
  exact ⟨he, hc⟩

theorem Faithful.lookup_document {p : Progress} (hf : Faithful g keys p) {id : Nat}
    (hid : id ∈ p.seenDocuments) :
    g.entries? (.node id) = some (entriesUnder g id) ∧
      ∃ location schema, schemaOf g keys location (entriesUnder g id) = .ok schema ∧
        p.documents.lookup id =
          some ⟨schema, collectionIds (subcollections keys (entriesUnder g id))⟩ := by
  obtain ⟨d, hd⟩ := exists_lookup hid
  obtain ⟨entries, location, schema, he, hschema, rfl⟩ :=
    hf.documents id d (mem_of_lookup hd)
  rw [entriesUnder_eq he]
  exact ⟨he, location, schema, hschema, hd⟩

theorem Settled.collection {p : Progress} {entry : Value × Part}
    (h : Settled g p .collection entry) :
    ∃ name id, entry = (.text name, .node id) ∧ IsName name ∧ id ∈ p.seenCollections := by
  obtain ⟨key, part⟩ := entry
  obtain ⟨⟨name, rfl, hname⟩, ⟨hrole, _⟩ | ⟨id, _, rfl, _, hid⟩⟩ := h
  · cases hrole
  · exact ⟨name, id, rfl, hname, hid⟩

theorem Settled.document {p : Progress} {entry : Value × Part} (h : Settled g p .document entry) :
    ∃ name, entry.1 = .text name ∧ IsName name ∧
      (entry.2 = .leaf .null ∨ ∃ id, entry.2 = .node id ∧ id ∈ p.seenDocuments) := by
  obtain ⟨⟨name, hkey, hname⟩, ⟨_, hnull⟩ | ⟨id, _, hnode, _, hid⟩⟩ := h
  · exact ⟨name, hkey, hname, .inl hnull⟩
  · exact ⟨name, hkey, hname, .inr ⟨id, hnode, hid⟩⟩

end SchemaAtlas.Declaration
