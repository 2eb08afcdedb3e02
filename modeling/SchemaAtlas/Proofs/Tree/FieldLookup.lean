import SchemaAtlas.Proofs.FieldType.Flat
import SchemaAtlas.Proofs.Text.Splitting
import SchemaAtlas.Proofs.Tree.Acceptance

/-!
# Looking up fields

A field path is looked up in the types of a schema, which are sorted and know nothing of the mappings
they were read from. It finds what reading the mappings themselves finds: the names of the path lead
down from the mapping under the schema key, and the type is the one declared by the part they lead
to. A field whose own name is the whole path comes before that.
-/
namespace SchemaAtlas

namespace Graph

/-- Names lead from a part to one inside it: each is the key of an entry of a mapping. -/
inductive Reads (g : Graph) : Part → List String → Part → Prop
  | here {part} : Reads g part [] part
  | step {part next inner entries name rest} : g.entries? part = some entries →
      (.text name, next) ∈ entries → Reads g next rest inner → Reads g part (name :: rest) inner

/--
What a lookup below a part found: the type declared by the part that the names lead to, and nothing
if they lead nowhere.
-/
structure Found (g : Graph) (part : Part) (names : List String) (found : Option FieldType) :
    Prop where
  declared : ∀ inner, g.Reads part names inner →
    ∃ type, (g.unfold inner).declaredType = .ok type ∧ found = some type
  missing : (∀ inner, ¬ g.Reads part names inner) → found = none

variable {g : Graph} {part : Part} {entries : List (Value × Part)} {type : FieldType}
  {fields : List (String × FieldType)} {name : String}

/-! ### The types of mappings -/

theorem unfoldBelow_mapping {id bound : Nat} {ancestors : List Nat}
    (he : g.entries? (.node id) = some entries) (hnew : id ∉ ancestors) :
    g.unfoldBelow (bound + 1) ancestors (.node id) =
      .mapping (entries.map fun entry =>
        (entry.1, g.unfoldBelow bound (id :: ancestors) entry.2)) := by
  rw [unfoldBelow, List.idxOf?_eq_none_iff.2 hnew, entries?_node_eq_some_iff.1 he]

/-- A part that declares a type has one value, wherever it is met and whatever the bound. -/
theorem DeclaresType.unfoldBelow_eq (hn : g.Numbered) (h : g.DeclaresType part)
    {bound other : Nat} {ancestors others : List Nat} (hbelow : g.Below bound ancestors part)
    (hother : g.Below other others part) :
    g.unfoldBelow bound ancestors part = g.unfoldBelow other others part := by
  -- on the derivation: what is above a part that declares a type is not inside it again
  induction h generalizing bound other ancestors others with
  | expression => rw [unfoldBelow, unfoldBelow]
  | @mapping part entries he htexts hdeclares ih =>
    have hcycle := (DeclaresType.mapping he htexts hdeclares).not_transGen
    obtain ⟨bound, rfl⟩ := Nat.exists_eq_add_one.2 hbelow.bound_pos
    obtain ⟨other, rfl⟩ := Nat.exists_eq_add_one.2 hother.bound_pos
    cases part with
    | leaf v => cases he
    | node id =>
      have hnew : id ∉ ancestors := fun hid => hcycle (hbelow.above id hid)
      have hnewOther : id ∉ others := fun hid => hcycle (hother.above id hid)
      have hid : id < g.nodes.size :=
        (Array.getElem?_eq_some_iff.1 (entries?_node_eq_some_iff.1 he)).1
      rw [unfoldBelow_mapping he hnew, unfoldBelow_mapping he hnewOther]
      refine congrArg Value.mapping (List.map_congr_left fun entry hentry => ?_)
      have hholds : g.Holds (.node id) entry.2 := ⟨entries, entry.1, he, hentry⟩
      rw [ih entry hentry (hbelow.step hn hnew hholds hid) (hother.step hn hnewOther hholds hid)]

theorem DeclaresType.unfold_mapping (hn : g.Numbered) (h : g.DeclaresType part)
    (hnumbered : part.isNumbered = true) (he : g.entries? part = some entries) :
    g.unfold part = .mapping (entries.map fun entry => (entry.1, g.unfold entry.2)) := by
  cases part with
  | leaf v => cases he
  | node id =>
    have hstart : g.Below (g.nodes.size + 1) [] (.node id) := .start hnumbered
    have hid : id < g.nodes.size :=
      (Array.getElem?_eq_some_iff.1 (entries?_node_eq_some_iff.1 he)).1
    rw [unfold, unfoldBelow_mapping he List.not_mem_nil]
    refine congrArg Value.mapping (List.map_congr_left fun entry hentry => ?_)
    have hholds : g.Holds (.node id) entry.2 := ⟨entries, entry.1, he, hentry⟩
    have hinner := hstart.step hn List.not_mem_nil hholds hid
    have hagain : g.Below (g.nodes.size + 1) [] entry.2 := .start hinner.numbered
    rw [(h.of_holds hholds).unfoldBelow_eq hn hinner hagain, unfold]

theorem declaresField_of_declaredFields
    (h : Value.declaredFields (entries.map fun entry => (entry.1, g.unfold entry.2)) = .ok fields) :
    List.Forall₂ g.DeclaresField entries fields := by
  induction entries generalizing fields with
  | nil =>
    obtain rfl := Except.ok.inj h
    exact .nil
  | cons entry rest ih =>
    obtain ⟨key, inner⟩ := entry
    rw [List.map_cons] at h
    cases key with
    | text name =>
      rw [Value.declaredFields] at h
      cases htype : (g.unfold inner).declaredType with
      | error e =>
        simp only [htype] at h
        cases h
      | ok type =>
        cases hrest : Value.declaredFields (rest.map fun entry => (entry.1, g.unfold entry.2)) with
        | error e =>
          simp only [htype, hrest] at h
          cases h
        | ok others =>
          simp only [htype, hrest] at h
          obtain rfl := Except.ok.inj h
          exact .cons ⟨rfl, htype⟩ (ih hrest)
    | _ => cases h

/-- A declared type is that of an expression, or has a field for every entry of a mapping. -/
theorem declaredType_cases (hn : g.Numbered) (hnumbered : part.isNumbered = true)
    (h : (g.unfold part).declaredType = .ok type) :
    (∃ source, part = .leaf (.text source) ∧ FieldType.parse source = .ok type) ∨
      ∃ entries fields, g.entries? part = some entries ∧
        List.Forall₂ g.DeclaresField entries fields ∧ type = .map (Fields.ofList fields) := by
  have hdeclares := (judges_unfold hn hnumbered).declares type h
  cases id hdeclares with
  | @expression source parsed hparse =>
    have hself : (Value.text source).declaredType = .ok type := h
    rw [Value.declaredType, hparse] at hself
    obtain rfl : parsed = type := Except.ok.inj hself
    exact .inl ⟨source, rfl, hparse⟩
  | @mapping _ entries he _ _ =>
    rw [hdeclares.unfold_mapping hn hnumbered he, Value.declaredType] at h
    obtain ⟨fields, hfields, rfl⟩ := exists_of_map_eq_ok h
    exact .inr ⟨entries, fields, he, declaresField_of_declaredFields hfields, rfl⟩

/-! ### One name -/

theorem exists_entry_of_mem_names (h : List.Forall₂ g.DeclaresField entries fields)
    (hname : name ∈ fields.map (·.1)) : ∃ inner, (.text name, inner) ∈ entries := by
  obtain ⟨field, hfield, rfl⟩ := List.mem_map.1 hname
  obtain ⟨⟨key, inner⟩, hentry, hkey, -⟩ := exists_left_of_forall₂ h hfield
  obtain rfl : key = .text field.1 := hkey
  exact ⟨inner, hentry⟩

theorem nodup_names (hdistinct : entries.Pairwise fun a b => a.1.sameKey b.1 = false)
    (h : List.Forall₂ g.DeclaresField entries fields) : (fields.map (·.1)).Nodup := by
  induction h with
  | nil => exact List.nodup_nil
  | @cons entry field rest others hfield hrest ih =>
    obtain ⟨hentry, hdistinct⟩ := List.pairwise_cons.1 hdistinct
    rw [List.map_cons]
    refine List.nodup_cons.2 ⟨fun hname => ?_, ih hdistinct⟩
    obtain ⟨inner, hinner⟩ := exists_entry_of_mem_names hrest hname
    have hsame : entry.1.sameKey (.text field.1) = true := by
      rw [hfield.1]
      exact beq_self_eq_true field.1
    cases hsame.symm.trans (hentry _ hinner)

/-- Under distinct keys every entry is found as a field, with the type that it declares. -/
theorem get?_of_entry (hdistinct : entries.Pairwise fun a b => a.1.sameKey b.1 = false)
    (h : List.Forall₂ g.DeclaresField entries fields) {inner : Part}
    (hentry : (.text name, inner) ∈ entries) :
    ∃ type, (g.unfold inner).declaredType = .ok type ∧
      Fields.get? (Fields.ofList fields) name = some type := by
  obtain ⟨⟨other, type⟩, hfield, hname, htype⟩ := exists_right_of_forall₂ h hentry
  obtain rfl := Value.text.inj hname
  exact ⟨type, htype, Fields.lookup_ofList (nodup_names hdistinct h) hfield⟩

theorem get?_of_no_entry (h : List.Forall₂ g.DeclaresField entries fields)
    (hno : ∀ inner, (.text name, inner) ∉ entries) :
    Fields.get? (Fields.ofList fields) name = none := by
  have hname : name ∉ fields.map (·.1) := by
    intro hname
    obtain ⟨inner, hinner⟩ := exists_entry_of_mem_names h hname
    exact hno inner hinner
  exact Fields.lookup_foldl_put_of_not_mem hname []

/-! ### Several names -/

/-- One name, followed by what is found below the entry that has it for a key. -/
theorem Found.of_mapping (hdistinct : entries.Pairwise fun a b => a.1.sameKey b.1 = false)
    (he : g.entries? part = some entries) (hfields : List.Forall₂ g.DeclaresField entries fields)
    {rest : List String}
    (hrest : ∀ next type, (.text name, next) ∈ entries → (g.unfold next).declaredType = .ok type →
      g.Found next rest (Schema.descend type rest)) :
    g.Found part (name :: rest)
      (Schema.descend (.map (Fields.ofList fields)) (name :: rest)) := by
  constructor
  · intro inner hreads
    cases hreads with
    | step hothers hentry hreads =>
      obtain rfl := Option.some.inj (he.symm.trans hothers)
      obtain ⟨type, htype, hget⟩ := get?_of_entry hdistinct hfields hentry
      rw [Schema.descend, hget]
      exact (hrest _ type hentry htype).declared inner hreads
  · intro hno
    rw [Schema.descend]
    by_cases hentry : ∃ next, (.text name, next) ∈ entries
    · obtain ⟨next, hentry⟩ := hentry
      obtain ⟨type, htype, hget⟩ := get?_of_entry hdistinct hfields hentry
      rw [hget]
      exact (hrest next type hentry htype).missing fun inner hreads =>
        hno inner (.step he hentry hreads)
    · rw [get?_of_no_entry hfields (not_exists.1 hentry)]

/-- Going down from the type of a part finds what reading down from the part finds. -/
theorem found_descend (hg : g.DistinctKeys) (hn : g.Numbered) (hnumbered : part.isNumbered = true)
    (h : (g.unfold part).declaredType = .ok type) (names : List String) :
    g.Found part names (Schema.descend type names) := by
  induction names generalizing part type with
  | nil =>
    refine ⟨fun inner hreads => ?_, fun hno => absurd .here (hno part)⟩
    cases hreads
    exact ⟨type, h, rfl⟩
  | cons name rest ih =>
    rcases declaredType_cases hn hnumbered h with
      ⟨source, rfl, hparse⟩ | ⟨entries, fields, he, hfields, rfl⟩
    · rw [Schema.descend_cons_of_parse hparse]
      refine ⟨fun inner hreads => ?_, fun _ => rfl⟩
      cases hreads with
      | step he => cases he
    · refine .of_mapping (hg.entries? he) he hfields fun next type hentry htype => ?_
      exact ih (isNumbered_of_holds hn ⟨entries, _, he, hentry⟩) htype

end Graph

namespace Schema

/-- A field path goes down from the fields name by name, unless one field has it for its name. -/
theorem fieldAt?_joinWith {s : Schema} {names : List String} (hne : names ≠ [])
    (hdots : ∀ name ∈ names, '.' ∉ name.toList)
    (hplain : 2 ≤ names.length → Fields.get? s.fields (Text.joinWith "." names) = none) :
    s.fieldAt? (Text.joinWith "." names) = descend (.map s.fields) names := by
  have hsplit : Text.split '.' (Text.joinWith "." names) = names := Text.split_joinWith hne hdots
  rw [fieldAt?, hsplit]
  match names, hne with
  | [name], _ =>
    rw [Text.joinWith, descend]
    cases Fields.get? s.fields name with
    | some type => rfl
    | none => rfl
  | head :: next :: rest, _ =>
    rw [hplain (Nat.le_add_left 2 _), descend]

variable {g : Graph} {keys : ReservedKeys} {location : List String}
  {entries fields : List (Value × Part)} {key : Value} {part : Part} {s : Schema}

theorem exists_declaresField_of_schemaOf
    (hkey : entries.find? (fun entry => keys.isSchemaKey entry.1) = some (key, part))
    (hfields : g.entries? part = some fields)
    (hs : Declaration.schemaOf g keys location entries = .ok s) :
    ∃ declared, List.Forall₂ g.DeclaresField fields declared ∧ s = .ofList declared := by
  have hnode : Graph.isNull part = false := by
    cases part with
    | leaf v => cases hfields
    | node => rfl
  rw [Declaration.schemaOf, hkey] at hs
  simp only [hnode, hfields, Bool.false_eq_true, if_false] at hs
  obtain ⟨declared, hread, rfl⟩ := exists_of_map_eq_ok hs
  exact ⟨declared, Declaration.declaresField_of_schemaFields hread, rfl⟩

/--
In the schema that is built from a mapping, names joined by dots find the type declared by what the
names lead to in the mapping itself, and nothing if they lead nowhere. If the joined names are a key
of the mapping, they find the type declared under this key.
-/
theorem fieldAt?_of_declaration (hg : g.DistinctKeys) (hn : g.Numbered)
    (hkey : entries.find? (fun entry => keys.isSchemaKey entry.1) = some (key, part))
    (hfields : g.entries? part = some fields)
    (hs : Declaration.schemaOf g keys location entries = .ok s) (names : List String)
    (hne : names ≠ []) (hdots : ∀ name ∈ names, '.' ∉ name.toList) :
    (∀ inner, (.text (Text.joinWith "." names), inner) ∈ fields →
      ∃ type, (g.unfold inner).declaredType = .ok type ∧
        s.fieldAt? (Text.joinWith "." names) = some type) ∧
    ((2 ≤ names.length → ∀ inner, (.text (Text.joinWith "." names), inner) ∉ fields) →
      g.Found part names (s.fieldAt? (Text.joinWith "." names))) := by
  obtain ⟨declared, hdeclared, rfl⟩ := exists_declaresField_of_schemaOf hkey hfields hs
  have hdistinct := hg.entries? hfields
  constructor
  · intro inner hentry
    obtain ⟨type, htype, hget⟩ := Graph.get?_of_entry hdistinct hdeclared hentry
    refine ⟨type, htype, ?_⟩
    rw [fieldAt?, ofList, hget]
  · intro hplain
    have hget : 2 ≤ names.length →
        Fields.get? (ofList declared).fields (Text.joinWith "." names) = none :=
      fun htwo => Graph.get?_of_no_entry hdeclared (hplain htwo)
    rw [fieldAt?_joinWith hne hdots hget]
    match names, hne with
    | name :: rest, _ =>
      refine .of_mapping hdistinct hfields hdeclared fun next type hentry htype => ?_
      have hnumbered := Graph.isNumbered_of_holds hn ⟨fields, _, hfields, hentry⟩
      exact Graph.found_descend hg hn hnumbered htype rest

/-- A person with a home, and with a field whose name looks like a path. -/
def personGraph : Graph where
  nodes := #[.mapping [(.text "$schema", .node 1), (.text "friends", .node 0)],
    .mapping [(.text "home", .node 2), (.text "home.town", .leaf (.text "number"))],
    .mapping [(.text "place", .node 3), (.text "town", .leaf (.text "string"))],
    .mapping []]
  root := .node 0

theorem schemaOf_personGraph : ∃ s, Declaration.schemaOf personGraph .default []
    (Declaration.entriesUnder personGraph 0) = .ok s :=
  exists_eq_ok_of_isOk (by decide +kernel)

/-- The town has a declaration of its own, the place is declared inside the home, an age nowhere. -/
theorem fieldAt?_of_declaration_home : ∃ s, Declaration.schemaOf personGraph .default []
      (Declaration.entriesUnder personGraph 0) = .ok s ∧
    s.fieldAt? "home.town" = some (.primitive .number) ∧
    s.fieldAt? "home.place" = some .openMap ∧ s.fieldAt? "age" = none := by
  obtain ⟨s, hs⟩ := schemaOf_personGraph
  have hlookup := fieldAt?_of_declaration (g := personGraph) (by decide) (by decide) rfl rfl hs
  obtain ⟨htown, -⟩ := hlookup ["home", "town"] (by decide) (by decide)
  obtain ⟨-, hplace⟩ := hlookup ["home", "place"] (by decide) (by decide)
  obtain ⟨-, hage⟩ := hlookup ["age"] (by decide) (by decide)
  have hother : ∀ {name : String}, name ≠ "home" → name ≠ "home.town" → ∀ inner : Part,
      (Value.text name, inner) ∉
        [(.text "home", .node 2), (.text "home.town", .leaf (.text "number"))] := by
    intro name hhome htown inner hentry
    simp [hhome, htown] at hentry
  refine ⟨s, hs, ?_, ?_, ?_⟩
  · have hnumber : (Value.text "number").declaredType = .ok (.primitive .number) :=
      Value.declaredType_of_tokens (u := .single (.mk (.word (.primitive .number)) 0))
        (by decide +kernel) rfl
    obtain ⟨type, htype, hfound⟩ := htown _ (List.mem_cons_of_mem _ List.mem_cons_self)
    obtain rfl := Except.ok.inj (hnumber.symm.trans htype)
    exact hfound
  · have hreads : personGraph.Reads (.node 1) ["home", "place"] (.node 3) :=
      .step rfl List.mem_cons_self (.step rfl List.mem_cons_self .here)
    have hfound := hplace fun _ => hother (by decide) (by decide)
    obtain ⟨type, htype, hfound⟩ := hfound.declared _ hreads
    obtain rfl : FieldType.openMap = type := Except.ok.inj htype
    exact hfound
  · have hfound := hage fun _ => hother (by decide) (by decide)
    refine hfound.missing fun inner hreads => ?_
    cases hreads with
    | step hfields hentry =>
      obtain rfl := Option.some.inj hfields
      exact hother (by decide) (by decide) _ hentry

end Schema
end SchemaAtlas
