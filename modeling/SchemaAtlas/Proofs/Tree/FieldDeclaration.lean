import Mathlib.Data.List.Perm.Subperm
import Mathlib.Logic.Relation
import SchemaAtlas.Value.Declared
import SchemaAtlas.Value.Graph

/-!
# Field declarations in a graph

The type of a field is read from the part that declares it, down through the mappings inside. There
is one exactly if everything on the way is a type expression or a mapping with texts for keys, and
no mapping holds itself. Otherwise the first fault is found: a part that is neither, or a mapping
that is met again inside itself.
-/
namespace SchemaAtlas

def Part.isNumbered : Part → Bool
  | .leaf (.mapping _) | .leaf (.enclosingMapping _) => false
  | _ => true

/-- The parts that a container holds. -/
def Node.parts : Node → List Part
  | .mapping entries => entries.map (·.2)
  | .sequence _ items => items

namespace Graph

/-- Every mapping has a number. -/
structure Numbered (g : Graph) : Prop where
  root : g.root.isNumbered = true
  parts : ∀ node ∈ g.nodes.toList, ∀ part ∈ node.parts, part.isNumbered = true

instance (g : Graph) : Decidable g.Numbered :=
  decidable_of_iff (g.root.isNumbered = true ∧
      ∀ node ∈ g.nodes.toList, ∀ part ∈ node.parts, part.isNumbered = true)
    ⟨fun h => ⟨h.1, h.2⟩, fun h => ⟨h.root, h.parts⟩⟩

/-- A mapping holds a part. -/
def Holds (g : Graph) (part inner : Part) : Prop :=
  ∃ entries key, g.entries? part = some entries ∧ (key, inner) ∈ entries

/-- A part or one inside it, through mappings. -/
abbrev Within (g : Graph) : Part → Part → Prop := Relation.ReflTransGen g.Holds

/-- A part that is neither a type expression nor a mapping with texts for keys. -/
inductive TypeFault (g : Graph) : Part → Prop
  | expression {source error} : FieldType.parse source = .error error →
      TypeFault g (.leaf (.text source))
  | notAType {part} : g.entries? part = none → (∀ source, part ≠ .leaf (.text source)) →
      TypeFault g part
  | fieldName {part entries entry} : g.entries? part = some entries → entry ∈ entries →
      entry.1.isText = false → TypeFault g part

/-- Something inside the part is neither a type expression nor a mapping with texts for keys. -/
def HoldsFault (g : Graph) (part : Part) : Prop := ∃ inner, g.Within part inner ∧ g.TypeFault inner

/-- A mapping inside the part contains itself. -/
def HoldsCycle (g : Graph) (part : Part) : Prop :=
  ∃ inner, g.Within part inner ∧ Relation.TransGen g.Holds inner inner

/-- The parts that declare a type. -/
inductive DeclaresType (g : Graph) : Part → Prop
  | expression {source type} : FieldType.parse source = .ok type →
      DeclaresType g (.leaf (.text source))
  | mapping {part entries} : g.entries? part = some entries →
      (∀ entry ∈ entries, entry.1.isText = true) →
      (∀ entry ∈ entries, DeclaresType g entry.2) → DeclaresType g part

variable {g : Graph} {part inner : Part} {entries : List (Value × Part)}

theorem entries?_node_eq_some_iff {id : Nat} :
    g.entries? (.node id) = some entries ↔ g.nodes[id]? = some (.mapping entries) := by
  cases hnode : g.nodes[id]? with
  | none => simp [entries?, hnode]
  | some node => cases node <;> simp [entries?, hnode]

theorem isNumbered_of_holds (hg : g.Numbered) (h : g.Holds part inner) :
    inner.isNumbered = true := by
  obtain ⟨entries, key, he, hentry⟩ := h
  cases part with
  | leaf v => cases he
  | node id =>
    have hnode := Array.mem_of_getElem? (entries?_node_eq_some_iff.1 he)
    refine hg.parts _ (Array.mem_toList_iff.2 hnode) inner ?_
    exact List.mem_map_of_mem (f := (·.2)) hentry

/-! ### What declares a type -/

theorem HoldsFault.of_holds (h : g.Holds part inner) (hinner : g.HoldsFault inner) :
    g.HoldsFault part := by
  obtain ⟨fault, hwithin, hfault⟩ := hinner
  exact ⟨fault, .head h hwithin, hfault⟩

theorem HoldsCycle.of_holds (h : g.Holds part inner) (hinner : g.HoldsCycle inner) :
    g.HoldsCycle part := by
  obtain ⟨mapping, hwithin, hcycle⟩ := hinner
  exact ⟨mapping, .head h hwithin, hcycle⟩

theorem DeclaresType.of_holds (h : g.DeclaresType part) (hinner : g.Holds part inner) :
    g.DeclaresType inner := by
  obtain ⟨entries, key, he, hentry⟩ := hinner
  cases h with
  | expression => cases he
  | mapping hentries _ hdeclares =>
    obtain rfl := Option.some.inj (hentries.symm.trans he)
    exact hdeclares _ hentry

theorem DeclaresType.within (h : g.DeclaresType part) (hinner : g.Within part inner) :
    g.DeclaresType inner := by
  induction hinner with
  | refl => exact h
  | tail _ hholds ih => exact ih.of_holds hholds

theorem DeclaresType.not_typeFault (h : g.DeclaresType part) : ¬ g.TypeFault part := by
  intro hfault
  cases h with
  | expression hparse =>
    cases hfault with
    | expression herror => cases hparse.symm.trans herror
    | notAType _ hne => exact hne _ rfl
    | fieldName he => cases he
  | mapping hentries htexts _ =>
    cases hfault with
    | expression => cases hentries
    | notAType hnone => cases hentries.symm.trans hnone
    | fieldName he hentry hkey =>
      obtain rfl := Option.some.inj (hentries.symm.trans he)
      cases (htexts _ hentry).symm.trans hkey

/-- Going down from a part that declares a type ends, so it never comes back. -/
theorem DeclaresType.not_transGen (h : g.DeclaresType part) :
    ¬ Relation.TransGen g.Holds part part := by
  -- on the derivation: a cycle through a mapping is also one through the part behind its first step
  induction h with
  | expression =>
    intro hcycle
    obtain ⟨inner, ⟨entries, key, he, -⟩, -⟩ := Relation.TransGen.head'_iff.1 hcycle
    cases he
  | mapping hentries _ _ ih =>
    intro hcycle
    obtain ⟨inner, hholds, hback⟩ := Relation.TransGen.head'_iff.1 hcycle
    obtain ⟨entries, key, he, hentry⟩ := id hholds
    obtain rfl := Option.some.inj (hentries.symm.trans he)
    exact ih _ hentry (.trans_right hback (.single hholds))

theorem DeclaresType.not_holdsFault (h : g.DeclaresType part) : ¬ g.HoldsFault part := by
  rintro ⟨inner, hwithin, hfault⟩
  exact (h.within hwithin).not_typeFault hfault

theorem DeclaresType.not_holdsCycle (h : g.DeclaresType part) : ¬ g.HoldsCycle part := by
  rintro ⟨inner, hwithin, hcycle⟩
  exact (h.within hwithin).not_transGen hcycle

/-! ### What reading finds -/

/-- What the outcome of reading a type says about the part that was read. -/
structure Judges (g : Graph) (part : Part) (outcome : Except DeclaredTypeError FieldType) :
    Prop where
  declares : ∀ type, outcome = .ok type → g.DeclaresType part
  cycle : outcome = .error .endless → g.HoldsCycle part
  fault : ∀ e, outcome = .error e → e ≠ .endless → g.HoldsFault part

theorem Judges.of_ok {type : FieldType} (h : g.DeclaresType part) : g.Judges part (.ok type) :=
  ⟨fun _ _ => h, fun heq => (nomatch heq), fun _ heq => (nomatch heq)⟩

theorem Judges.of_typeFault {e : DeclaredTypeError} (h : g.TypeFault part) (he : e ≠ .endless) :
    g.Judges part (.error e) :=
  ⟨fun _ heq => (nomatch heq), fun heq => absurd (Except.error.inj heq) he,
    fun _ _ _ => ⟨part, .refl, h⟩⟩

theorem Judges.of_cycle (h : Relation.TransGen g.Holds part part) :
    g.Judges part (.error .endless) :=
  ⟨fun _ heq => (nomatch heq), fun _ => ⟨part, .refl, h⟩,
    fun _ heq hne => absurd (Except.error.inj heq).symm hne⟩

/-- A fault that was found inside counts for the whole. -/
theorem Judges.of_holds {e : DeclaredTypeError} (h : g.Holds part inner)
    (hinner : g.Judges inner (.error e)) : g.Judges part (.error e) := by
  constructor
  · exact fun _ heq => (nomatch heq)
  · exact fun heq => .of_holds h (hinner.cycle heq)
  · exact fun other heq hne => .of_holds h (hinner.fault other heq hne)

theorem judges_leaf {v : Value} (h : (Part.leaf v).isNumbered = true) :
    g.Judges (.leaf v) v.declaredType := by
  cases v with
  | text source =>
    rw [Value.declaredType]
    cases hparse : FieldType.parse source with
    | ok type => exact .of_ok (.expression hparse)
    | error e => exact .of_typeFault (.expression hparse) (by simp)
  | mapping => cases h
  | enclosingMapping => cases h
  | _ => exact .of_typeFault (.notAType rfl (by simp)) (by simp)

/-- The fields of a mapping are read one after the other, up to the first fault. -/
theorem declaredFields_map (read : Part → Value) (entries : List (Value × Part)) :
    (∃ fields,
      Value.declaredFields (entries.map fun entry => (entry.1, read entry.2)) = .ok fields ∧
      ∀ entry ∈ entries, entry.1.isText = true ∧
        ∃ type, (read entry.2).declaredType = .ok type) ∨
    ∃ e, Value.declaredFields (entries.map fun entry => (entry.1, read entry.2)) = .error e ∧
      ∃ entry ∈ entries, entry.1.isText = false ∧ e ≠ .endless ∨
        (read entry.2).declaredType = .error e := by
  induction entries with
  | nil => exact .inl ⟨[], rfl, fun entry h => absurd h List.not_mem_nil⟩
  | cons entry rest ih =>
    obtain ⟨key, part⟩ := entry
    rw [List.map_cons]
    cases key with
    | text name =>
      rw [Value.declaredFields]
      cases htype : (read part).declaredType with
      | error e => exact .inr ⟨e, rfl, _, List.mem_cons_self, .inr htype⟩
      | ok type =>
        rcases ih with ⟨fields, hfields, hrest⟩ | ⟨e, herror, entry, hentry, hfault⟩
        · rw [hfields]
          exact .inl ⟨_, rfl, List.forall_mem_cons.2 ⟨⟨rfl, type, htype⟩, hrest⟩⟩
        · rw [herror]
          exact .inr ⟨e, rfl, entry, List.mem_cons_of_mem _ hentry, hfault⟩
    | _ => exact .inr ⟨_, rfl, _, List.mem_cons_self, .inl ⟨rfl, by simp⟩⟩

theorem judges_mapping {read : Part → Value} (he : g.entries? part = some entries)
    (h : ∀ entry ∈ entries, g.Judges entry.2 (read entry.2).declaredType) :
    g.Judges part
      (Value.mapping (entries.map fun entry => (entry.1, read entry.2))).declaredType := by
  rw [Value.declaredType]
  rcases declaredFields_map read entries with
    ⟨fields, hfields, hall⟩ | ⟨e, herror, entry, hentry, hfault⟩
  · rw [hfields]
    refine .of_ok (.mapping he (fun entry hentry => (hall entry hentry).1) fun entry hentry => ?_)
    obtain ⟨-, type, htype⟩ := hall entry hentry
    exact (h entry hentry).declares type htype
  · rw [herror]
    rcases hfault with ⟨hkey, hne⟩ | htype
    · exact .of_typeFault (.fieldName he hentry hkey) hne
    · have hinner := h entry hentry
      rw [htype] at hinner
      exact .of_holds ⟨entries, entry.1, he, hentry⟩ hinner

/-- Where reading has come to: below distinct mappings, and with the bound out of reach. -/
structure Below (g : Graph) (bound : Nat) (ancestors : List Nat) (part : Part) : Prop where
  nodup : ancestors.Nodup
  bounded : ∀ id ∈ ancestors, id < g.nodes.size
  enough : g.nodes.size < bound + ancestors.length
  above : ∀ id ∈ ancestors, Relation.TransGen g.Holds (.node id) part
  numbered : part.isNumbered = true

theorem Below.start (h : part.isNumbered = true) : g.Below (g.nodes.size + 1) [] part := by
  refine ⟨List.nodup_nil, ?_, Nat.lt_succ_self _, ?_, h⟩
  · exact fun id hid => absurd hid List.not_mem_nil
  · exact fun id hid => absurd hid List.not_mem_nil

theorem Below.bound_pos {bound : Nat} {ancestors : List Nat} (h : g.Below bound ancestors part) :
    0 < bound := by
  have hsubset : ancestors ⊆ List.range g.nodes.size :=
    fun id hid => List.mem_range.2 (h.bounded id hid)
  have hlength := (List.subperm_of_subset h.nodup hsubset).length_le
  rw [List.length_range] at hlength
  have henough := h.enough
  omega

theorem Below.step (hg : g.Numbered) {bound id : Nat} {ancestors : List Nat}
    (h : g.Below (bound + 1) ancestors (.node id)) (hnew : id ∉ ancestors)
    (hholds : g.Holds (.node id) part) (hid : id < g.nodes.size) :
    g.Below bound (id :: ancestors) part := by
  constructor
  · exact List.nodup_cons.2 ⟨hnew, h.nodup⟩
  · exact List.forall_mem_cons.2 ⟨hid, h.bounded⟩
  · have henough := h.enough
    rw [List.length_cons]
    omega
  · exact List.forall_mem_cons.2 ⟨.single hholds, fun a ha => (h.above a ha).tail hholds⟩
  · exact isNumbered_of_holds hg hholds

theorem backReference_of_holds {id : Nat} (h : g.Holds (.node id) part) (levels : Nat) :
    g.backReference id levels = .enclosingMapping levels := by
  obtain ⟨entries, key, he, -⟩ := h
  rw [backReference, entries?_node_eq_some_iff.1 he]

/-- Reading never reaches its bound, so whatever it finds is in the graph. -/
theorem judges_unfoldBelow (hg : g.Numbered) {bound : Nat} {ancestors : List Nat}
    (h : g.Below bound ancestors part) :
    g.Judges part (g.unfoldBelow bound ancestors part).declaredType := by
  induction bound generalizing ancestors part with
  | zero => exact absurd h.bound_pos (Nat.lt_irrefl 0)
  | succ bound ih =>
    cases part with
    | leaf v => exact judges_leaf h.numbered
    | node id =>
      rw [unfoldBelow]
      cases hposition : ancestors.idxOf? id with
      | some position =>
        have hid : id ∈ ancestors := by
          by_contra hid
          cases (List.idxOf?_eq_none_iff.2 hid).symm.trans hposition
        -- an ancestor holds something, so it is a mapping, and here it holds itself
        have hcycle := h.above id hid
        obtain ⟨inner, hholds, -⟩ := Relation.TransGen.head'_iff.1 hcycle
        simp only [backReference_of_holds hholds]
        exact .of_cycle hcycle
      | none =>
        have hnew := List.idxOf?_eq_none_iff.1 hposition
        cases hnode : g.nodes[id]? with
        | none => exact .of_typeFault (.notAType (by simp [entries?, hnode]) (by simp)) (by simp)
        | some node =>
          cases node with
          | sequence kind items =>
            exact .of_typeFault (.notAType (by simp [entries?, hnode]) (by simp)) (by simp)
          | mapping entries =>
            have he : g.entries? (.node id) = some entries := entries?_node_eq_some_iff.2 hnode
            have hid : id < g.nodes.size := (Array.getElem?_eq_some_iff.1 hnode).1
            refine judges_mapping he fun entry hentry => ?_
            exact ih (h.step hg hnew ⟨entries, entry.1, he, hentry⟩ hid)

/-- The type of a part is read from it, unless something inside declares no type or itself. -/
theorem judges_unfold (hg : g.Numbered) (h : part.isNumbered = true) :
    g.Judges part (g.unfold part).declaredType :=
  judges_unfoldBelow hg (.start h)

end Graph
end SchemaAtlas
