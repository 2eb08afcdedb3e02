import SchemaAtlas.Fault
import SchemaAtlas.Proofs.Tree.DeclarationWalk
import SchemaAtlas.Proofs.Tree.FieldDeclaration

/-!
# Accepted declarations

Whether a graph declares a tree can be told from the entries that are reached from its root,
wherever these lead back to. A tree is built exactly if none of them is malformed and no field of a
document is declared by a mapping that contains itself. Collections and documents may contain
themselves.
-/
namespace SchemaAtlas

namespace Graph

/-- An entry that is reached from the root, and what it has to be. -/
inductive Meets (g : Graph) (keys : ReservedKeys) : NodeRole → Value × Part → Prop
  | root {entries entry} : g.entries? g.root = some entries → entry ∈ entries →
      Meets g keys .collection entry
  | document {above entries entry} : Meets g keys .collection above →
      g.entries? above.2 = some entries → entry ∈ entries → Meets g keys .document entry
  | collection {above entries entry} : Meets g keys .document above →
      g.entries? above.2 = some entries → entry ∈ Declaration.subcollections keys entries →
      Meets g keys .collection entry

/-- What stands under the schema key of a document. -/
def HasSchema (g : Graph) (keys : ReservedKeys) (document schema : Part) : Prop :=
  ∃ entries key, g.entries? document = some entries ∧ (key, schema) ∈ entries ∧
    keys.isSchemaKey key = true

/-- An entry of what stands under the schema key of a document. -/
def HasField (g : Graph) (keys : ReservedKeys) (document : Part) (field : Value × Part) : Prop :=
  ∃ schema fields, g.HasSchema keys document schema ∧ g.entries? schema = some fields ∧
    field ∈ fields

/-- What can be wrong with an entry for a collection or a document. -/
inductive EntryFault (g : Graph) (keys : ReservedKeys) : NodeRole → Value × Part → Prop
  | name {role entry} : (∀ name, entry.1 = .text name → ¬ IsName name) →
      EntryFault g keys role entry
  | notMapping {role entry} : g.entries? entry.2 = none →
      (role = .document → entry.2 ≠ .leaf .null) → EntryFault g keys role entry
  | schema {entry schema} : g.HasSchema keys entry.2 schema → g.entries? schema = none →
      schema ≠ .leaf .null → EntryFault g keys .document entry
  | fieldName {entry field} : g.HasField keys entry.2 field →
      (∀ name, field.1 = .text name → name.isEmpty = true) → EntryFault g keys .document entry
  | fieldType {entry field} : g.HasField keys entry.2 field → g.HoldsFault field.2 →
      EntryFault g keys .document entry

/-- Something that is reached from the root is malformed. -/
inductive Malformed (g : Graph) (keys : ReservedKeys) : Prop
  | root : g.entries? g.root = none → Malformed g keys
  | entry {role entry} : g.Meets keys role entry → g.EntryFault keys role entry →
      Malformed g keys

/-- A field of a document that is reached from the root is declared by a mapping that contains
itself. -/
def HasEndlessField (g : Graph) (keys : ReservedKeys) : Prop :=
  ∃ entry field, g.Meets keys .document entry ∧ g.HasField keys entry.2 field ∧
    g.HoldsCycle field.2

end Graph

namespace Declaration

variable {g : Graph} {keys : ReservedKeys} {location : List String}
  {entries : List (Value × Part)}

/-! ### Schemas -/

theorem schemaFields_eq_ok {fields : List (String × FieldType)}
    (h : schemaFields g location entries = .ok fields) :
    ∀ field ∈ entries, (∃ name, field.1 = .text name ∧ name.isEmpty = false) ∧
      ∃ type, (g.unfold field.2).declaredType = .ok type := by
  induction entries generalizing fields with
  | nil => exact fun field hfield => absurd hfield List.not_mem_nil
  | cons entry rest ih =>
    obtain ⟨key, part⟩ := entry
    unfold schemaFields at h
    split at h
    · rename_i name
      split at h
      · cases h
      · rename_i hempty
        split at h
        · cases h
        · rename_i type htype
          obtain ⟨others, hrest, -⟩ := exists_of_map_eq_ok h
          have hname : ∃ text, Value.text name = .text text ∧ text.isEmpty = false :=
            ⟨name, rfl, Bool.eq_false_iff.2 hempty⟩
          exact List.forall_mem_cons.2 ⟨⟨hname, type, htype⟩, ih hrest⟩
    · cases h

theorem schemaFields_eq_error {e : DeclarationError}
    (h : schemaFields g location entries = .error e) :
    ∃ field ∈ entries,
      (∀ name, field.1 = .text name → name.isEmpty = true) ∧ e = .fieldName location ∨
      ∃ name error, (g.unfold field.2).declaredType = .error error ∧
        e = .fieldType name location error := by
  induction entries with
  | nil => cases h
  | cons entry rest ih =>
    obtain ⟨key, part⟩ := entry
    unfold schemaFields at h
    split at h
    · rename_i name
      split at h
      · rename_i hempty
        obtain rfl := Except.error.inj h
        refine ⟨_, List.mem_cons_self, .inl ⟨fun other heq => ?_, rfl⟩⟩
        obtain rfl := Value.text.inj heq
        exact hempty
      · split at h
        · rename_i error htype
          obtain rfl := Except.error.inj h
          exact ⟨_, List.mem_cons_self, .inr ⟨name, error, htype, rfl⟩⟩
        · obtain ⟨field, hfield, hfault⟩ := ih (eq_error_of_map_eq_error h)
          exact ⟨field, List.mem_cons_of_mem _ hfield, hfault⟩
    · rename_i hkey
      obtain rfl := Except.error.inj h
      exact ⟨_, List.mem_cons_self, .inl ⟨fun name heq => absurd heq (hkey name), rfl⟩⟩

/-- The schema that is read is the one under the schema key, if there is something under it. -/
theorem schemaOf_eq_ok (hdistinct : entries.Pairwise fun a b => a.1.sameKey b.1 = false)
    {schema : Schema} (h : schemaOf g keys location entries = .ok schema)
    {key : Value} {part : Part} (hentry : (key, part) ∈ entries) (hkey : keys.isSchemaKey key = true) :
    part = .leaf .null ∨ ∃ fields read, g.entries? part = some fields ∧
      schemaFields g location fields = .ok read := by
  unfold schemaOf at h
  rw [find?_isSchemaKey hdistinct hentry hkey] at h
  dsimp only at h
  split at h
  · rename_i hnull
    exact .inl (isNull_iff.1 hnull)
  · split at h
    · cases h
    · rename_i fields hfields
      obtain ⟨read, hread, -⟩ := exists_of_map_eq_ok h
      exact .inr ⟨fields, read, hfields, hread⟩

theorem schemaOf_eq_error {e : DeclarationError}
    (h : schemaOf g keys location entries = .error e) :
    ∃ key part, (key, part) ∈ entries ∧ keys.isSchemaKey key = true ∧ part ≠ .leaf .null ∧
      (g.entries? part = none ∧ e = .schemaNotMapping location keys ∨
        ∃ fields, g.entries? part = some fields ∧ schemaFields g location fields = .error e) := by
  unfold schemaOf at h
  split at h
  · cases h
  · rename_i key part hfind
    have hentry := List.mem_of_find?_eq_some hfind
    have hkey := List.find?_some hfind
    split at h
    · cases h
    · rename_i hnull
      refine ⟨key, part, hentry, hkey, fun heq => hnull (isNull_iff.2 heq), ?_⟩
      split at h
      · rename_i hnone
        exact .inl ⟨hnone, (Except.error.inj h).symm⟩
      · rename_i fields hfields
        exact .inr ⟨fields, hfields, eq_error_of_map_eq_error h⟩

/-! ### Errors -/

/-- An error that is right about an entry. -/
inductive Reports (g : Graph) (keys : ReservedKeys) (e : DeclarationError) :
    NodeRole → Value × Part → Prop
  | fault {role entry} : (Fault.declaration e).isEndless = false → g.EntryFault keys role entry →
      Reports g keys e role entry
  | cycle {entry field} : (Fault.declaration e).isEndless = true →
      g.HasField keys entry.2 field → g.HoldsCycle field.2 → Reports g keys e .document entry

theorem isEndless_fieldType {name : String} {error : DeclaredTypeError} :
    (Fault.declaration (.fieldType name location error)).isEndless = true ↔ error = .endless := by
  cases error <;> simp [Fault.isEndless]

theorem isNumbered_of_hasField (hg : g.Numbered) {document : Part} {field : Value × Part}
    (h : g.HasField keys document field) : field.2.isNumbered = true := by
  obtain ⟨schema, fields, -, hfields, hfield⟩ := h
  exact Graph.isNumbered_of_holds hg ⟨fields, field.1, hfields, hfield⟩

theorem reports_of_schemaFields (hg : g.Numbered) {e : DeclarationError} {entry : Value × Part}
    (hfields : ∀ field ∈ entries, g.HasField keys entry.2 field)
    (h : schemaFields g location entries = .error e) : Reports g keys e .document entry := by
  obtain ⟨field, hfield, ⟨hname, rfl⟩ | ⟨name, error, htype, rfl⟩⟩ := schemaFields_eq_error h
  · exact .fault rfl (.fieldName (hfields field hfield) hname)
  · have hhas := hfields field hfield
    have hjudges := Graph.judges_unfold hg (isNumbered_of_hasField hg hhas)
    by_cases hendless : error = .endless
    · exact .cycle (isEndless_fieldType.2 hendless) hhas (hjudges.cycle (hendless ▸ htype))
    · have hfault := hjudges.fault error htype hendless
      exact .fault (Bool.eq_false_iff.2 (mt isEndless_fieldType.1 hendless))
        (.fieldType hhas hfault)

theorem reports_of_schemaOf (hg : g.Numbered) {e : DeclarationError} {entry : Value × Part}
    (he : g.entries? entry.2 = some entries) (h : schemaOf g keys location entries = .error e) :
    Reports g keys e .document entry := by
  obtain ⟨key, schema, hentry, hkey, hne, hcases⟩ := schemaOf_eq_error h
  have hschema : g.HasSchema keys entry.2 schema := ⟨entries, key, he, hentry, hkey⟩
  rcases hcases with ⟨hnone, rfl⟩ | ⟨fields, hfields, hread⟩
  · exact .fault rfl (.schema hschema hnone hne)
  · exact reports_of_schemaFields hg (fun field h => ⟨schema, fields, hschema, hfields, h⟩) hread

theorem nodeName_eq_error {role : NodeRole} {key : Value} {e : DeclarationError}
    (h : nodeName role location key = .error e) :
    (∀ name, key = .text name → ¬ IsName name) ∧ (Fault.declaration e).isEndless = false := by
  unfold nodeName at h
  split at h
  · rename_i text
    split at h
    · rename_i hempty
      obtain rfl := Except.error.inj h
      refine ⟨fun name heq hname => ?_, rfl⟩
      obtain rfl := Value.text.inj heq
      cases hname.1.symm.trans hempty
    · split at h
      · rename_i hseparator
        obtain rfl := Except.error.inj h
        refine ⟨fun name heq hname => ?_, rfl⟩
        obtain rfl := Value.text.inj heq
        cases hname.2.symm.trans hseparator
      · cases h
  · rename_i hkey
    obtain rfl := Except.error.inj h
    exact ⟨fun name heq => absurd heq (hkey name), rfl⟩

theorem reports_of_visitCollection {p : Progress} {e : DeclarationError} {entry : Value × Part}
    (h : visitCollection g keys p location entry.2 = .error e) :
    Reports g keys e .collection entry := by
  have hnot : g.entries? entry.2 = none → e = .collectionNotMapping location →
      Reports g keys e .collection entry := by
    rintro hnone rfl
    exact .fault rfl (.notMapping hnone fun hrole => nomatch hrole)
  unfold visitCollection at h
  split at h
  · rename_i hleaf
    exact hnot (by rw [hleaf]; rfl) (Except.error.inj h).symm
  · rename_i id hnode
    split at h
    · rename_i hnone
      exact hnot (hnode ▸ hnone) (Except.error.inj h).symm
    · split at h <;> cases h

theorem reports_of_visitDocument (hg : g.Numbered) {p : Progress} {e : DeclarationError}
    {entry : Value × Part} (h : visitDocument g keys p location entry.2 = .error e) :
    Reports g keys e .document entry := by
  unfold visitDocument at h
  split at h
  · rename_i v hleaf
    split at h
    · cases h
    · rename_i hnull
      obtain rfl := Except.error.inj h
      refine .fault rfl (.notMapping (by rw [hleaf]; rfl) fun _ heq => ?_)
      rw [hleaf] at heq
      exact hnull (Part.leaf.inj heq)
  · rename_i id hnode
    split at h
    · rename_i hnone
      obtain rfl := Except.error.inj h
      refine .fault rfl (.notMapping (hnode ▸ hnone) fun _ heq => ?_)
      cases hnode.symm.trans heq
    · rename_i entries he
      split at h
      · cases h
      · split at h
        · rename_i hschema
          obtain rfl := Except.error.inj h
          exact reports_of_schemaOf hg (hnode ▸ he) hschema
        · cases h

theorem reports_of_visit (hg : g.Numbered) {p : Progress} {pending : Pending} {e : DeclarationError}
    (h : visit g keys p pending = .error e) :
    Reports g keys e pending.role (pending.key, pending.part) := by
  unfold visit at h
  split at h
  · rename_i hname
    obtain rfl := Except.error.inj h
    obtain ⟨hkey, hendless⟩ := nodeName_eq_error hname
    exact .fault hendless (.name hkey)
  · split at h
    · rename_i hrole
      rw [hrole]
      exact reports_of_visitCollection h
    · rename_i hrole
      rw [hrole]
      exact reports_of_visitDocument hg h

/-- What a visit brings up is reached through the entry that is visited. -/
theorem Visited.meets {p p' : Progress} {pending : Pending} {more : List Pending}
    (h : Visited g keys p pending p' more)
    (hmeets : g.Meets keys pending.role (pending.key, pending.part)) :
    ∀ e ∈ more, g.Meets keys e.role (e.key, e.part) := by
  intro e he
  cases h with
  | oldCollection | blankDocument | oldDocument => exact absurd he List.not_mem_nil
  | newCollection hentries =>
    obtain ⟨entry, hentry, rfl⟩ := List.mem_map.1 he
    exact .document hmeets hentries hentry
  | newDocument hentries =>
    obtain ⟨entry, hentry, rfl⟩ := List.mem_map.1 he
    exact .collection hmeets hentries hentry

/-- A run stops only at an entry that the error is about. -/
theorem reports_of_visitAll (hg : g.Numbered) {p : Progress} {pending : List Pending}
    {e : DeclarationError} (h : visitAll g keys p pending = .error e)
    (hmeets : ∀ x ∈ pending, g.Meets keys x.role (x.key, x.part)) :
    ∃ role entry, g.Meets keys role entry ∧ Reports g keys e role entry := by
  fun_induction visitAll g keys p pending with
  | case1 => cases h
  | case2 p x rest error hvisit =>
    obtain rfl := Except.error.inj h
    exact ⟨x.role, _, hmeets x List.mem_cons_self, reports_of_visit hg hvisit⟩
  | case3 p x rest p₁ more hvisit ih =>
    have hmore := (visit_eq_ok hvisit).2.meets (hmeets x List.mem_cons_self)
    refine ih h fun y hy => ?_
    rcases List.mem_append.1 hy with hy | hy
    · exact hmore y hy
    · exact hmeets y (List.mem_cons_of_mem x hy)

theorem reports_of_ofGraph (hg : g.Numbered) {e : DeclarationError}
    (h : SchemaTree.ofGraph g keys = .error e) :
    (g.entries? g.root = none ∧ e = .rootNotMapping) ∨
      ∃ role entry, g.Meets keys role entry ∧ Reports g keys e role entry := by
  unfold SchemaTree.ofGraph at h
  split at h
  · rename_i hroot
    exact .inl ⟨hroot, (Except.error.inj h).symm⟩
  · rename_i entries hroot
    refine .inr (reports_of_visitAll hg (eq_error_of_map_eq_error h) fun x hx => ?_)
    obtain ⟨entry, hentry, rfl⟩ := List.mem_map.1 hx
    exact .root hroot hentry

/-! ### Trees -/

/-- When nothing is left to check, every entry that is reached from the root is settled. -/
theorem settled_of_meets {p : Progress} (hinv : Invariant g keys p [])
    (hroot : ∀ entries, g.entries? g.root = some entries →
      ∀ entry ∈ entries, Settled g p .collection entry)
    {role : NodeRole} {entry : Value × Part} (h : g.Meets keys role entry) :
    Settled g p role entry := by
  induction h with
  | root he hentry => exact hroot _ he _ hentry
  | document _ he hentry ih =>
    obtain ⟨name, id, rfl, -, hid⟩ := ih.collection
    exact hinv.settled (.document hid he hentry)
  | collection _ he hentry ih =>
    obtain ⟨name, -, -, hnull | ⟨id, hnode, hid⟩⟩ := ih.document
    · rw [hnull] at he
      cases he
    · rw [hnode] at he
      exact hinv.settled (.collection hid he hentry)

/-- The schema of a document that is settled was read. -/
theorem schema_of_settled (hg : g.DistinctKeys) {p : Progress} (hinv : Invariant g keys p [])
    {entry : Value × Part} (h : Settled g p .document entry) {schema : Part}
    (hschema : g.HasSchema keys entry.2 schema) :
    schema = .leaf .null ∨ ∃ location fields read, g.entries? schema = some fields ∧
      schemaFields g location fields = .ok read := by
  obtain ⟨entries, key, he, hentry, hkey⟩ := hschema
  obtain ⟨name, -, -, hnull | ⟨id, hnode, hid⟩⟩ := h.document
  · rw [hnull] at he
    cases he
  · rw [hnode] at he
    obtain ⟨hunder, location, read, hread, -⟩ := hinv.faithful.lookup_document hid
    obtain rfl := Option.some.inj (hunder.symm.trans he)
    have hdistinct := hg.entriesOf (.document (.declared id))
    rcases schemaOf_eq_ok hdistinct hread hentry hkey with hnull | ⟨fields, read, hfields, hread⟩
    · exact .inl hnull
    · exact .inr ⟨location, fields, read, hfields, hread⟩

/-- Every field of a document that is settled has a name and declares a type. -/
theorem field_of_settled (hg : g.DistinctKeys) (hn : g.Numbered) {p : Progress}
    (hinv : Invariant g keys p []) {entry : Value × Part} (h : Settled g p .document entry)
    {field : Value × Part} (hfield : g.HasField keys entry.2 field) :
    (∃ name, field.1 = .text name ∧ name.isEmpty = false) ∧ g.DeclaresType field.2 := by
  have hnumbered := isNumbered_of_hasField hn hfield
  obtain ⟨schema, fields, hschema, hfields, hmem⟩ := hfield
  rcases schema_of_settled hg hinv h hschema with rfl | ⟨location, others, read, hothers, hread⟩
  · cases hfields
  · obtain rfl := Option.some.inj (hothers.symm.trans hfields)
    obtain ⟨hname, type, htype⟩ := schemaFields_eq_ok hread field hmem
    exact ⟨hname, (Graph.judges_unfold hn hnumbered).declares type htype⟩

theorem not_entryFault_of_settled (hg : g.DistinctKeys) (hn : g.Numbered) {p : Progress}
    (hinv : Invariant g keys p []) {role : NodeRole} {entry : Value × Part}
    (h : Settled g p role entry) : ¬ g.EntryFault keys role entry := by
  intro hfault
  cases hfault with
  | name hno =>
    obtain ⟨⟨name, hkey, hname⟩, -⟩ := h
    exact hno name hkey hname
  | notMapping hnone hne =>
    obtain ⟨-, ⟨hrole, hnull⟩ | ⟨id, entries, hnode, he, -⟩⟩ := h
    · exact hne hrole hnull
    · rw [hnode, he] at hnone
      cases hnone
  | schema hschema hnone hne =>
    rcases schema_of_settled hg hinv h hschema with hnull | ⟨_, fields, _, hfields, -⟩
    · exact hne hnull
    · cases hfields.symm.trans hnone
  | fieldName hfield hempty =>
    obtain ⟨⟨name, hkey, hname⟩, -⟩ := field_of_settled hg hn hinv h hfield
    cases hname.symm.trans (hempty name hkey)
  | fieldType hfield hfault =>
    exact (field_of_settled hg hn hinv h hfield).2.not_holdsFault hfault

end Declaration

namespace SchemaTree

open Declaration

variable {g : Graph} {keys : ReservedKeys}

theorem not_malformed_of_ofGraph (hg : g.DistinctKeys) (hn : g.Numbered) {t : SchemaTree}
    (h : ofGraph g keys = .ok t) : ¬ g.Malformed keys ∧ ¬ g.HasEndlessField keys := by
  obtain ⟨entries, p, hroot, -, hinv, hsettled⟩ := ofGraph_eq_ok h
  have hmeets : ∀ role entry, g.Meets keys role entry → Settled g p role entry := by
    refine fun role entry => settled_of_meets hinv fun others hothers => ?_
    obtain rfl := Option.some.inj (hroot.symm.trans hothers)
    exact hsettled
  constructor
  · rintro (hnone | ⟨hentry, hfault⟩)
    · cases hroot.symm.trans hnone
    · exact not_entryFault_of_settled hg hn hinv (hmeets _ _ hentry) hfault
  · rintro ⟨entry, field, hentry, hfield, hcycle⟩
    exact (field_of_settled hg hn hinv (hmeets _ _ hentry) hfield).2.not_holdsCycle hcycle

theorem error_of_ofGraph (hn : g.Numbered) {e : DeclarationError} (h : ofGraph g keys = .error e) :
    if (Fault.declaration e).isEndless then g.HasEndlessField keys else g.Malformed keys := by
  rcases reports_of_ofGraph hn h with ⟨hroot, rfl⟩ | ⟨role, entry, hmeets, hreports⟩
  · exact .root hroot
  · cases hreports with
    | fault hendless hfault =>
      rw [hendless, if_neg Bool.false_ne_true]
      exact .entry hmeets hfault
    | cycle hendless hfield hcycle =>
      rw [if_pos hendless]
      exact ⟨entry, _, hmeets, hfield, hcycle⟩

/-- People whose profile has a friend with a profile like it. -/
def profileGraph : Graph where
  nodes := #[.mapping [(.text "people", .node 1)], .mapping [(.text "*", .node 2)],
    .mapping [(.text "$schema", .node 3)], .mapping [(.text "profile", .node 4)],
    .mapping [(.text "friend", .node 4)]]
  root := .node 0

theorem ofGraph_profileGraph : ∃ e, ofGraph profileGraph .default = .error e ∧
    (Fault.declaration e).isEndless = true := by
  have h : (match ofGraph profileGraph .default with
      | .ok _ => false
      | .error e => (Fault.declaration e).isEndless) = true := by decide +kernel
  cases hresult : ofGraph profileGraph .default with
  | ok t =>
    rw [hresult] at h
    cases h
  | error e =>
    rw [hresult] at h
    exact ⟨e, rfl, h⟩

/-- Not every failure is an error in the declaration: reading the profile has no end. -/
theorem not_forall_finite : ¬ ∀ (g : Graph) (keys : ReservedKeys) (e : DeclarationError),
    g.DistinctKeys → g.Numbered → ofGraph g keys = .error e →
      (Fault.declaration e).isEndless = false := by
  intro h
  obtain ⟨e, herror, hendless⟩ := ofGraph_profileGraph
  cases (h profileGraph .default e (by decide) (by decide) herror).symm.trans hendless

/--
A graph declares a tree exactly if nothing that is reached from its root is malformed and no field
is declared by a mapping that contains itself. Otherwise the error tells which of the two it is.
-/
theorem ofGraph_outcome (hg : g.DistinctKeys) (hn : g.Numbered) (keys : ReservedKeys) :
    ((∃ t, ofGraph g keys = .ok t) ↔ ¬ g.Malformed keys ∧ ¬ g.HasEndlessField keys) ∧
      ∀ e, ofGraph g keys = .error e →
        if (Fault.declaration e).isEndless then g.HasEndlessField keys else g.Malformed keys := by
  refine ⟨⟨fun h => ?_, fun h => ?_⟩, fun e => error_of_ofGraph hn⟩
  · obtain ⟨t, ht⟩ := h
    exact not_malformed_of_ofGraph hg hn ht
  · obtain ⟨hwell, hfinite⟩ := h
    cases hresult : ofGraph g keys with
    | ok t => exact ⟨t, rfl⟩
    | error e =>
      have hreason := error_of_ofGraph hn hresult
      split at hreason
      · exact absurd hreason hfinite
      · exact absurd hreason hwell

/-- The profile contains itself, so there is no tree. -/
theorem ofGraph_outcome_profile :
    profileGraph.HasEndlessField .default ∧ ¬ ∃ t, ofGraph profileGraph .default = .ok t := by
  obtain ⟨e, herror, hendless⟩ := ofGraph_profileGraph
  have houtcome := ofGraph_outcome (g := profileGraph) (by decide) (by decide) .default
  have hreason := houtcome.2 e herror
  rw [if_pos hendless] at hreason
  exact ⟨hreason, fun htree => (houtcome.1.1 htree).2 hreason⟩

end SchemaTree
end SchemaAtlas
