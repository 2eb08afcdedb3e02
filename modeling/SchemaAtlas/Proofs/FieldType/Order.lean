import SchemaAtlas.Proofs.Value.Admitted

/-!
# Subtyping as an order

On types in which `any` does not occur subtyping is a preorder, and the union of types is their join:
it is above all of them, and below whatever all of them are below. `any` itself is below and above
everything, so with `any` in the middle every type would be below every other.
-/
namespace SchemaAtlas.FieldType

/-- At every depth the fields of a map have distinct names. -/
inductive DistinctNames : FieldType → Prop
  | any : DistinctNames .any
  | primitive (kind : Primitive) : DistinctNames (.primitive kind)
  | literal (value : Literal) : DistinctNames (.literal value)
  | array {element : FieldType} (h : DistinctNames element) : DistinctNames (.array element)
  | map {fields : List (String × FieldType)} (hdistinct : (fields.map (·.1)).Nodup)
    (h : ∀ field ∈ fields, DistinctNames field.2) : DistinctNames (.map fields)
  | union {members : List FieldType} (h : ∀ m ∈ members, DistinctNames m) :
    DistinctNames (.union members)

/-- A type of which everything is said: no part of it is `any`, and no name stands for two fields. -/
structure Definite (t : FieldType) : Prop where
  anyFree : t.AnyFree
  distinctNames : t.DistinctNames

namespace Definite

theorem primitive (kind : Primitive) : Definite (.primitive kind) :=
  ⟨.primitive kind, .primitive kind⟩

theorem literal (value : Literal) : Definite (.literal value) := ⟨.literal value, .literal value⟩

theorem array {element : FieldType} (h : element.Definite) : Definite (.array element) :=
  ⟨.array h.anyFree, .array h.distinctNames⟩

theorem map {fields : List (String × FieldType)} (hdistinct : (fields.map (·.1)).Nodup)
    (h : ∀ field ∈ fields, field.2.Definite) : Definite (.map fields) :=
  ⟨.map fun field hfield => (h field hfield).anyFree,
    .map hdistinct fun field hfield => (h field hfield).distinctNames⟩

theorem union {members : List FieldType} (h : ∀ m ∈ members, m.Definite) :
    Definite (.union members) :=
  ⟨.union fun m hm => (h m hm).anyFree, .union fun m hm => (h m hm).distinctNames⟩

end Definite

variable {a b c m t : FieldType} {members types : List FieldType}

/-! ### Below a union -/

theorem isSubtype_union_of_mem (hm : m ∈ members) (h : isSubtype a m = true) :
    isSubtype a (union members) = true := by
  induction a with
  | any => exact isSubtype_any_left _
  | union alternatives ih =>
    exact isSubtype_union_left.2 fun x hx => ih x hx (isSubtype_union_left.1 h x hx)
  | _ => exact (isSubtype_union_right rfl rfl).2 ⟨m, hm, h⟩

theorem isSubtype_ofMembers_of_mem (hm : m ∈ members) (h : isSubtype a m = true) :
    isSubtype a (ofMembers members) = true := by
  unfold ofMembers
  split
  · rwa [← List.mem_singleton.1 hm]
  · exact isSubtype_union_of_mem hm h

/-! ### Reflexivity -/

/-- Only under distinct names is the type that is found for a field the field's own. -/
theorem DistinctNames.isSubtype_refl (h : t.DistinctNames) : isSubtype t t = true := by
  induction h with
  | any => exact isSubtype_any_left _
  | primitive kind => exact (isSubtype_primitive_iff rfl rfl).2 rfl
  | literal value => exact (isSubtype_literal_iff rfl rfl).2 (.inl (same_refl _))
  | array _ ih => exact (isSubtype_array_iff rfl rfl).2 ⟨_, rfl, ih⟩
  | map hdistinct _ ih =>
    refine (isSubtype_map_iff rfl rfl).2 ⟨_, rfl, fun field hfield => ?_⟩
    exact ⟨field.2, lookup_of_mem hdistinct hfield, ih field hfield⟩
  | union _ ih => exact isSubtype_union_left.2 fun m hm => isSubtype_union_of_mem hm (ih m hm)

theorem DistinctNames.of_mem_members (ht : t.DistinctNames) (h : m ∈ t.members) :
    m.DistinctNames := by
  cases ht with
  | union hmembers => exact hmembers m h
  | _ =>
    obtain rfl := List.mem_singleton.1 h
    constructor <;> assumption

/-! ### Transitivity -/

/-- What is below a type other than a union is below its targets if it is below the plain ones. -/
theorem isSubtype_of_plain_target (hany : a.isAny = false) (hunion : a.isUnion = false)
    (hany' : b.isAny = false) (hunion' : b.isUnion = false)
    (hplain : ∀ c, c.isAny = false → c.isUnion = false → isSubtype b c = true →
      isSubtype a c = true)
    (h : isSubtype b c = true) : isSubtype a c = true := by
  induction c with
  | any => exact isSubtype_any_right a
  | union members ih =>
    obtain ⟨m, hm, hbm⟩ := (isSubtype_union_right hany' hunion').1 h
    exact (isSubtype_union_right hany hunion).2 ⟨m, hm, ih m hm hbm⟩
  | _ => exact hplain _ rfl rfl h

/--
A type that is neither a union nor `any` goes through unions in the middle and on the right to one of
their members, so the middle and the right type may be taken to be neither as well.
-/
theorem isSubtype_trans_of_plain (hany : a.isAny = false) (hunion : a.isUnion = false)
    (hplain : ∀ b c, b.AnyFree → b.isAny = false → b.isUnion = false → c.isAny = false →
      c.isUnion = false → isSubtype a b = true → isSubtype b c = true → isSubtype a c = true)
    (hb : b.AnyFree) (hab : isSubtype a b = true) (hbc : isSubtype b c = true) :
    isSubtype a c = true := by
  induction hb with
  | union _ ih =>
    obtain ⟨m, hm, ham⟩ := (isSubtype_union_right hany hunion).1 hab
    exact ih m hm ham (isSubtype_union_left.1 hbc m hm)
  | _ =>
    refine isSubtype_of_plain_target hany hunion rfl rfl (fun c hc hc' hbc => ?_) hbc
    exact hplain _ c (by constructor <;> assumption) rfl rfl hc hc' hab hbc

/-- Only the type in the middle must be without `any`. -/
theorem isSubtype_trans (hb : b.AnyFree) (hab : isSubtype a b = true)
    (hbc : isSubtype b c = true) : isSubtype a c = true := by
  induction a generalizing b c with
  | any => exact isSubtype_any_left c
  | union alternatives ih =>
    exact isSubtype_union_left.2 fun m hm => ih m hm hb (isSubtype_union_left.1 hab m hm) hbc
  | primitive kind =>
    refine isSubtype_trans_of_plain rfl rfl (fun b c _ hany hunion _ _ hab hbc => ?_) hb hab hbc
    obtain rfl := (isSubtype_primitive_iff hany hunion).1 hab
    exact hbc
  | literal value =>
    refine isSubtype_trans_of_plain rfl rfl (fun b c _ hany hunion hany' hunion' hab hbc => ?_)
      hb hab hbc
    rcases (isSubtype_literal_iff hany hunion).1 hab with hsame | rfl
    · exact isSubtype_of_same (same_symm hsame) c.same_refl hbc
    · obtain rfl := (isSubtype_primitive_iff hany' hunion').1 hbc
      exact hab
  | array element ih =>
    refine isSubtype_trans_of_plain rfl rfl (fun b c hb hany hunion hany' hunion' hab hbc => ?_)
      hb hab hbc
    obtain ⟨middle, rfl, hmiddle⟩ := (isSubtype_array_iff hany hunion).1 hab
    obtain ⟨last, rfl, hlast⟩ := (isSubtype_array_iff hany' hunion').1 hbc
    cases hb with
    | array hfree => exact (isSubtype_array_iff rfl rfl).2 ⟨last, rfl, ih hfree hmiddle hlast⟩
  | map fields ih =>
    refine isSubtype_trans_of_plain rfl rfl (fun b c hb hany hunion hany' hunion' hab hbc => ?_)
      hb hab hbc
    obtain ⟨others, rfl, hothers⟩ := (isSubtype_map_iff hany hunion).1 hab
    obtain ⟨thirds, rfl, hthirds⟩ := (isSubtype_map_iff hany' hunion').1 hbc
    cases hb with
    | map hfree =>
      refine (isSubtype_map_iff rfl rfl).2 ⟨thirds, rfl, fun field hfield => ?_⟩
      obtain ⟨middle, hmiddle, hmc⟩ := hthirds field hfield
      obtain ⟨first, hfirst, hfm⟩ := hothers _ (mem_of_lookup hmiddle)
      have hle := ih _ (mem_of_lookup hfirst) (hfree _ (mem_of_lookup hmiddle)) hfm hmc
      exact ⟨first, hfirst, hle⟩

/-! ### Joins -/

/-- Every type is below the union it is put into. -/
theorem isSubtype_unionOf_of_mem (hdistinct : t.DistinctNames) (ht : t ∈ types) :
    isSubtype t (unionOf types) = true := by
  unfold unionOf
  split
  · exact isSubtype_any_right t
  · refine isSubtype_iff_members.2 fun m hm => ?_
    -- another type may stand for this member, but only one that is the same
    obtain ⟨kept, hkept, hsame⟩ :=
      exists_mem_distinctBy same_refl (List.mem_flatMap.2 ⟨t, ht, hm⟩)
    refine isSubtype_ofMembers_of_mem hkept ?_
    rw [isSubtype_congr m.same_refl hsame]
    exact (hdistinct.of_mem_members hm).isSubtype_refl

theorem AnyFree.isAny_eq_false (h : t.AnyFree) : t.isAny = false := by
  cases h <;> rfl

/-- Subtyping of definite types is a preorder, in which the union of types is their join. -/
theorem isSubtype_preorder_unionOf_join (ha : a.Definite) (hb : b.Definite)
    (htypes : ∀ t ∈ types, t.Definite) :
    isSubtype a a = true ∧
      (isSubtype a b = true → isSubtype b c = true → isSubtype a c = true) ∧
      (isSubtype (unionOf types) b = true ↔ ∀ t ∈ types, isSubtype t b = true) ∧
      ∀ t ∈ types, isSubtype t (unionOf types) = true := by
  refine ⟨ha.distinctNames.isSubtype_refl, isSubtype_trans hb.anyFree, ?_, fun t ht => ?_⟩
  · exact isSubtype_unionOf_iff fun t ht => (htypes t ht).anyFree.isAny_eq_false
  · exact isSubtype_unionOf_of_mem (htypes t ht).distinctNames ht

/-- The fields of an administrator. -/
def adminFields : FieldType := map [("tags", array (text "a")), ("who", text "admin")]

/-- The fields of a guest, who has no tags. -/
def guestFields : FieldType := map [("tags", array never), ("who", text "guest")]

/-- The fields of whoever has an account. -/
def accountFields : FieldType :=
  map [("tags", array (union [text "a", primitive .null])), ("who", primitive .string)]

theorem isSubtype_preorder_unionOf_join_accounts :
    adminFields.Definite ∧ accountFields.Definite ∧
      (∀ t ∈ [adminFields, never, guestFields], t.Definite) ∧
      isSubtype adminFields (union [primitive .null, map [("who", primitive .string)]]) = true ∧
      isSubtype (unionOf [adminFields, never, guestFields]) accountFields = true ∧
      isSubtype guestFields (unionOf [adminFields, never, guestFields]) = true := by
  have hadmin : adminFields.Definite := .map (by decide) (List.forall_mem_cons.2
    ⟨.array (.literal _), List.forall_mem_singleton.2 (.literal _)⟩)
  have hguest : guestFields.Definite := .map (by decide) (List.forall_mem_cons.2
    ⟨.array (.union nofun), List.forall_mem_singleton.2 (.literal _)⟩)
  have htags : (union [text "a", primitive .null]).Definite := .union (List.forall_mem_cons.2
    ⟨.literal _, List.forall_mem_singleton.2 (.primitive .null)⟩)
  have haccount : accountFields.Definite := .map (by decide) (List.forall_mem_cons.2
    ⟨.array htags, List.forall_mem_singleton.2 (.primitive .string)⟩)
  have htypes : ∀ t ∈ [adminFields, never, guestFields], t.Definite := List.forall_mem_cons.2
    ⟨hadmin, List.forall_mem_cons.2 ⟨.union nofun, List.forall_mem_singleton.2 hguest⟩⟩
  have hbelow : isSubtype adminFields accountFields = true := by
    simp [adminFields, accountFields, text, isSubtype, isSubtypeOfSome, hasFields, hasField,
      Literal.same, Literal.base]
  have habove : isSubtype accountFields
      (union [primitive .null, map [("who", primitive .string)]]) = true := by
    simp [accountFields, isSubtype, isSubtypeOfSome, hasFields, hasField]
  have hall : ∀ t ∈ [adminFields, never, guestFields], isSubtype t accountFields = true := by
    refine List.forall_mem_cons.2 ⟨hbelow, ?_⟩
    simp [never, guestFields, accountFields, text, isSubtype, allSubtypes, hasFields, hasField,
      Literal.base]
  obtain ⟨-, htrans, hjoin, hmembers⟩ := isSubtype_preorder_unionOf_join hadmin haccount htypes
  exact ⟨hadmin, haccount, htypes, htrans hbelow habove, hjoin.2 hall,
    hmembers guestFields (by simp)⟩

end SchemaAtlas.FieldType
