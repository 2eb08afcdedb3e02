import SchemaAtlas.Proofs.Except
import SchemaAtlas.Proofs.FieldType.Fields
import SchemaAtlas.Proofs.FieldType.Parsing
import SchemaAtlas.Proofs.FieldType.Subtyping
import SchemaAtlas.Value.Declared

/-!
# Flat types

A union is a flat set of alternatives: none of them is a union, and none is `any`, which would absorb
the others. Unions of flat types are flat, and so is every type that an expression writes or a value
declares, and every type found in a schema of flat types.
-/
namespace SchemaAtlas

namespace FieldType

/-- At every depth the members of a union are neither unions nor `any`. -/
inductive Flat : FieldType → Prop
  | any : Flat .any
  | primitive (kind : Primitive) : Flat (.primitive kind)
  | literal (value : Literal) : Flat (.literal value)
  | array {element : FieldType} (h : Flat element) : Flat (.array element)
  | map {fields : List (String × FieldType)} (h : ∀ field ∈ fields, Flat field.2) :
    Flat (.map fields)
  | union {members : List FieldType} (hany : ∀ m ∈ members, m.isAny = false)
    (hunion : ∀ m ∈ members, m.isUnion = false) (h : ∀ m ∈ members, Flat m) :
    Flat (.union members)

theorem members_of_isUnion_eq_false {t : FieldType} (ht : t.isUnion = false) :
    t.members = [t] := by
  cases t with
  | union members => cases ht
  | _ => rfl

theorem mem_members_of_isUnion_eq_false {t m : FieldType} (ht : t.isUnion = false)
    (h : m ∈ t.members) : m = t := by
  rw [members_of_isUnion_eq_false ht] at h
  exact List.mem_singleton.1 h

/-- Among the distinct alternatives of types, each is one of some type. -/
theorem exists_of_mem_distinct_members {types : List FieldType} {m : FieldType}
    (h : m ∈ distinctBy same (types.flatMap members)) : ∃ t ∈ types, m ∈ t.members :=
  List.mem_flatMap.1 (mem_of_mem_distinctBy h)

namespace Flat

variable {t m : FieldType}

theorem union_of_members {members : List FieldType}
    (h : ∀ m ∈ members, m.isAny = false ∧ m.isUnion = false ∧ Flat m) :
    Flat (.union members) :=
  .union (fun m hm => (h m hm).1) (fun m hm => (h m hm).2.1) fun m hm => (h m hm).2.2

theorem of_mem_members (ht : Flat t) (h : m ∈ t.members) : Flat m := by
  cases ht with
  | union hany hunion hmembers => exact hmembers m h
  | _ =>
    obtain rfl := mem_members_of_isUnion_eq_false rfl h
    constructor <;> assumption

theorem isUnion_of_mem_members (ht : Flat t) (h : m ∈ t.members) : m.isUnion = false := by
  cases ht with
  | union hany hunion hmembers => exact hunion m h
  | _ =>
    obtain rfl := mem_members_of_isUnion_eq_false rfl h
    rfl

theorem isAny_of_mem_members (ht : Flat t) (hany : t.isAny = false) (h : m ∈ t.members) :
    m.isAny = false := by
  cases ht with
  | union hmany hunion hmembers => exact hmany m h
  | _ =>
    obtain rfl := mem_members_of_isUnion_eq_false rfl h
    exact hany

theorem ofMembers {members : List FieldType} (hany : ∀ m ∈ members, m.isAny = false)
    (hunion : ∀ m ∈ members, m.isUnion = false) (h : ∀ m ∈ members, Flat m) :
    Flat (FieldType.ofMembers members) := by
  unfold FieldType.ofMembers
  split
  · exact h _ List.mem_cons_self
  · exact .union hany hunion h

theorem unionOf {types : List FieldType} (h : ∀ t ∈ types, Flat t) : Flat (unionOf types) := by
  unfold FieldType.unionOf
  split
  · exact .any
  · rename_i hplain
    refine ofMembers (fun m hm => ?_) (fun m hm => ?_) fun m hm => ?_
    · obtain ⟨t, ht, hm⟩ := exists_of_mem_distinct_members hm
      have hany : t.isAny = false := by
        rw [← Bool.not_eq_true]
        exact fun hany => hplain (List.any_eq_true.2 ⟨t, ht, hany⟩)
      exact (h t ht).isAny_of_mem_members hany hm
    · obtain ⟨t, ht, hm⟩ := exists_of_mem_distinct_members hm
      exact (h t ht).isUnion_of_mem_members hm
    · obtain ⟨t, ht, hm⟩ := exists_of_mem_distinct_members hm
      exact (h t ht).of_mem_members hm

end Flat

/-! ### Written types -/

/-- A literal that an expression writes: its number, if it is one, is that of a lexeme. -/
def WrittenLiteral : Literal → Prop
  | .number n => ∃ lexeme, n = numberOf lexeme
  | .text _ | .boolean _ => True

/--
What a type is that an expression writes: its numbers are those of lexemes, its maps list no fields,
and its unions are flat and hold at least two members, no two of them the same.
-/
inductive Written : FieldType → Prop
  | any : Written .any
  | primitive (kind : Primitive) : Written (.primitive kind)
  | literal {value : Literal} (h : WrittenLiteral value) : Written (.literal value)
  | array {element : FieldType} (h : Written element) : Written (.array element)
  | openMap : Written (.map [])
  | union {members : List FieldType} (hflat : Flat (.union members)) (htwo : 2 ≤ members.length)
    (hdistinct : members.Pairwise fun a b => same a b = false) (h : ∀ m ∈ members, Written m) :
    Written (.union members)

namespace Written

variable {t m : FieldType}

theorem flat (ht : Written t) : Flat t := by
  induction ht with
  | any => exact .any
  | primitive kind => exact .primitive kind
  | literal _ => exact .literal _
  | array _ ih => exact .array ih
  | openMap => exact .map nofun
  | union hflat => exact hflat

theorem of_mem_members (ht : Written t) (h : m ∈ t.members) : Written m := by
  cases ht with
  | union hflat htwo hdistinct hmembers => exact hmembers m h
  | _ =>
    obtain rfl := mem_members_of_isUnion_eq_false rfl h
    constructor <;> assumption

theorem members_ne_nil (ht : Written t) : t.members ≠ [] := by
  cases ht with
  | union hflat htwo =>
    rintro rfl
    exact absurd htwo (by decide)
  | _ => exact List.cons_ne_nil _ _

theorem unionOf {types : List FieldType} (hne : types ≠ []) (h : ∀ t ∈ types, Written t) :
    Written (unionOf types) := by
  have hflat : Flat (FieldType.unionOf types) := .unionOf fun t ht => (h t ht).flat
  have hmember : ∀ m ∈ distinctBy same (types.flatMap members), Written m := by
    intro m hm
    obtain ⟨t, ht, hm⟩ := exists_of_mem_distinct_members hm
    exact (h t ht).of_mem_members hm
  have hsome : distinctBy same (types.flatMap members) ≠ [] := by
    obtain ⟨t, ht⟩ := List.exists_mem_of_ne_nil types hne
    obtain ⟨m, hm⟩ := List.exists_mem_of_ne_nil _ (h t ht).members_ne_nil
    obtain ⟨kept, hkept, -⟩ := exists_mem_distinctBy same_refl (List.mem_flatMap.2 ⟨t, ht, hm⟩)
    exact List.ne_nil_of_mem hkept
  have hdistinct := pairwise_distinctBy same (types.flatMap members)
  unfold FieldType.unionOf at hflat ⊢
  split
  · exact .any
  · rename_i hplain
    rw [if_neg hplain] at hflat
    cases hkept : distinctBy same (types.flatMap members) with
    | nil => exact absurd hkept hsome
    | cons first others =>
      rw [hkept] at hflat hmember hdistinct
      cases others with
      | nil => exact hmember first List.mem_cons_self
      | cons second others => exact .union hflat (Nat.le_add_left 2 _) hdistinct hmember

theorem iterate_array (ht : Written t) (n : Nat) : Written (FieldType.array^[n] t) := by
  induction n generalizing t with
  | zero => exact ht
  | succ n ih => exact ih (.array ht)

end Written

open Grammar

theorem Grammar.Word.written_type (w : Word) : Written w.type := by
  cases w with
  | truth value => exact .literal trivial
  | anything => exact .any
  | openMap => exact .openMap
  | primitive kind => exact .primitive kind

mutual

theorem Grammar.Atom.written_type (a : Atom) : Written a.type := by
  cases a with
  | quoted lexeme => exact .literal trivial
  | number lexeme => exact .literal ⟨lexeme, (numberOf_eq_numberValue lexeme).symm⟩
  | enclosed inner => exact inner.written_type
  | word w => exact w.written_type
  | array element => exact .array element.written_type

theorem Grammar.Item.written_type (i : Item) : Written i.type := by
  cases i with
  | mk atom brackets => exact atom.written_type.iterate_array brackets

theorem Grammar.Union.written_type (u : Union) : Written u.type := by
  cases u with
  | single item => exact item.written_type
  | either item others =>
    refine .unionOf (List.cons_ne_nil _ _) ?_
    exact List.forall_mem_cons.2 ⟨item.written_type, others.written_types⟩

theorem Grammar.Union.written_types (u : Union) : ∀ t ∈ u.types, Written t := by
  cases u with
  | single item => exact List.forall_mem_singleton.2 item.written_type
  | either item others =>
    exact List.forall_mem_cons.2 ⟨item.written_type, others.written_types⟩

end

theorem written_of_parse {source : String} {t : FieldType} (h : parse source = .ok t) :
    Written t := by
  obtain ⟨u, _, rfl⟩ := parse_eq_ok_iff.1 h
  exact u.written_type

theorem flat_of_parse {source : String} {t : FieldType} (h : parse source = .ok t) : Flat t :=
  (written_of_parse h).flat

end FieldType

/-! ### Declared types -/

open FieldType (Flat)

/-- A text declares what the tree of its tokens denotes. -/
theorem Value.declaredType_of_tokens {source : String} {u : FieldType.Grammar.Union} {t : FieldType}
    (htokens : FieldType.tokens source = .ok u.tokens) (htype : u.type = t) :
    declaredType (.text source) = .ok t := by
  rw [declaredType, FieldType.parse_eq_ok_iff.2 ⟨u, htokens, htype⟩]
  rfl

mutual

/--
Whatever holds of all types that expressions write, and of the map to types of which it holds, holds
of all declared types.
-/
theorem Value.holds_of_declaredType {P : FieldType → Prop}
    (hparse : ∀ {source t}, FieldType.parse source = .ok t → P t)
    (hmap : ∀ entries : List (String × FieldType), (∀ entry ∈ entries, P entry.2) →
      P (.map (Fields.ofList entries)))
    (v : Value) {t : FieldType} (h : v.declaredType = .ok t) : P t := by
  cases v with
  | text source =>
    rw [Value.declaredType] at h
    exact hparse (eq_ok_of_mapError_eq_ok h)
  | mapping entries =>
    rw [Value.declaredType] at h
    obtain ⟨fields, hfields, rfl⟩ := exists_of_map_eq_ok h
    exact hmap fields (Value.holds_of_declaredFields hparse hmap entries hfields)
  | _ => cases h

theorem Value.holds_of_declaredFields {P : FieldType → Prop}
    (hparse : ∀ {source t}, FieldType.parse source = .ok t → P t)
    (hmap : ∀ entries : List (String × FieldType), (∀ entry ∈ entries, P entry.2) →
      P (.map (Fields.ofList entries)))
    (entries : List (Value × Value)) {fields : List (String × FieldType)}
    (h : Value.declaredFields entries = .ok fields) : ∀ field ∈ fields, P field.2 := by
  match entries with
  | [] =>
    obtain rfl := Except.ok.inj h
    exact nofun
  | (key, v) :: rest =>
    cases key with
    | text name =>
      rw [Value.declaredFields] at h
      cases htype : v.declaredType with
      | error e =>
        rw [htype] at h
        cases h
      | ok t =>
        cases hrest : Value.declaredFields rest with
        | error e =>
          rw [htype, hrest] at h
          cases h
        | ok others =>
          rw [htype, hrest] at h
          obtain rfl := Except.ok.inj h
          exact List.forall_mem_cons.2 ⟨Value.holds_of_declaredType hparse hmap v htype,
            Value.holds_of_declaredFields hparse hmap rest hrest⟩
    | _ => cases h

end

theorem Value.flat_of_declaredType (v : Value) {t : FieldType} (h : v.declaredType = .ok t) :
    Flat t :=
  Value.holds_of_declaredType FieldType.flat_of_parse
    (fun _ hentries => .map fun _ hfield => hentries _ (Fields.mem_of_mem_ofList hfield)) v h

namespace Schema

/-- Nothing is found inside a type that an expression writes. -/
theorem descend_cons_of_parse {source : String} {t : FieldType}
    (h : FieldType.parse source = .ok t) (name : String) (rest : List String) :
    descend t (name :: rest) = none := by
  cases FieldType.written_of_parse h with
  | _ => rfl

theorem flat_of_descend {t found : FieldType} {names : List String} (ht : Flat t)
    (h : descend t names = some found) : Flat found := by
  induction names generalizing t with
  | nil =>
    obtain rfl := Option.some.inj h
    exact ht
  | cons name rest ih =>
    cases ht with
    | map hfields =>
      rename_i fields
      rw [descend] at h
      split at h
      · rename_i next hnext
        exact ih (hfields _ (mem_of_lookup hnext)) h
      · cases h
    | _ => cases h

/-- A type found in a schema whose fields have flat types is flat. -/
theorem flat_of_fieldAt? {s : Schema} (hs : ∀ field ∈ s.fields, Flat field.2) {path : String}
    {t : FieldType} (h : s.fieldAt? path = some t) : Flat t := by
  unfold fieldAt? at h
  split at h
  · rename_i found hfound
    obtain rfl := Option.some.inj h
    exact hs _ (mem_of_lookup hfound)
  · split at h
    · cases h
    · cases h
    · split at h
      · rename_i found hfound
        exact flat_of_descend (hs _ (mem_of_lookup hfound)) h
      · cases h

end Schema
end SchemaAtlas
