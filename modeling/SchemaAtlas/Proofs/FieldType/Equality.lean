import Mathlib.Data.List.Forall2
import SchemaAtlas.Schema

/-!
# Equality of types and schemas

Types count as the same if unions hold the same members in whatever order, number literals stand for
the same quantity and all else agrees. This is an equivalence, and so is equality of schemas, which
compares field by field. Nothing here says that same types are equal as data.
-/
namespace SchemaAtlas

section Forall₂

variable {α β : Type} {R : α → β → Prop} {as : List α} {bs : List β}

/-- In two rows that are related element by element each element has a partner. -/
theorem exists_right_of_forall₂ (h : List.Forall₂ R as bs) {a : α} (ha : a ∈ as) :
    ∃ b ∈ bs, R a b := by
  induction h with
  | nil => cases ha
  | cons hab _ ih =>
    rcases List.mem_cons.1 ha with rfl | ha
    · exact ⟨_, List.mem_cons_self, hab⟩
    · obtain ⟨b, hb, hab⟩ := ih ha
      exact ⟨b, List.mem_cons_of_mem _ hb, hab⟩

theorem exists_left_of_forall₂ (h : List.Forall₂ R as bs) {b : β} (hb : b ∈ bs) :
    ∃ a ∈ as, R a b :=
  exists_right_of_forall₂ h.flip hb

end Forall₂

namespace Literal

theorem same_refl (a : Literal) : a.same a = true := by
  cases a <;> simp [same]

theorem same_symm {a b : Literal} (h : a.same b = true) : b.same a = true := by
  cases a <;> cases b <;> simp_all [same]

theorem same_trans {a b c : Literal} (hab : a.same b = true) (hbc : b.same c = true) :
    a.same c = true := by
  cases a <;> cases b <;> cases c <;> simp_all [same]

theorem base_eq_of_same {a b : Literal} (h : a.same b = true) : a.base = b.base := by
  cases a <;> cases b <;> simp_all [same, base]

end Literal

namespace FieldType

theorem sizeOf_field_lt {fields : List (String × FieldType)} {field : String × FieldType}
    (h : field ∈ fields) : sizeOf field.2 < sizeOf (map fields) := by
  have hf := List.sizeOf_lt_of_mem h
  have hp : sizeOf field.2 < sizeOf field := by
    obtain ⟨name, type⟩ := field
    change sizeOf type < sizeOf (name, type)
    rw [Prod.mk.sizeOf_spec]
    omega
  rw [map.sizeOf_spec]
  omega

theorem sizeOf_member_lt {members : List FieldType} {member : FieldType} (h : member ∈ members) :
    sizeOf member < sizeOf (union members) := by
  have hm := List.sizeOf_lt_of_mem h
  rw [union.sizeOf_spec]
  omega

/-- Induction on a type with a hypothesis for every field of a map and every member of a union. -/
@[elab_as_elim, induction_eliminator]
theorem induct {motive : FieldType → Prop} (any : motive .any)
    (primitive : ∀ kind, motive (.primitive kind)) (literal : ∀ value, motive (.literal value))
    (array : ∀ element, motive element → motive (.array element))
    (map : ∀ fields, (∀ field ∈ fields, motive field.2) → motive (.map fields))
    (union : ∀ members, (∀ member ∈ members, motive member) → motive (.union members))
    (type : FieldType) : motive type := by
  match type with
  | .any => exact any
  | .primitive kind => exact primitive kind
  | .literal value => exact literal value
  | .array element =>
    exact array element (induct any primitive literal array map union element)
  | .map fields =>
    exact map fields fun field _ => induct any primitive literal array map union field.2
  | .union members =>
    exact union members fun member _ => induct any primitive literal array map union member
termination_by sizeOf type
decreasing_by
  · rw [FieldType.array.sizeOf_spec]
    omega
  · exact sizeOf_field_lt (by assumption)
  · exact sizeOf_member_lt (by assumption)

theorem allIn_iff {as bs : List FieldType} :
    allIn as bs = true ↔ ∀ a ∈ as, ∃ b ∈ bs, same a b = true := by
  induction as with
  | nil => simp [allIn]
  | cons a as ih => simp [allIn, ih]

theorem hasSame_iff {as : List FieldType} {b : FieldType} :
    hasSame as b = true ↔ ∃ a ∈ as, same a b = true := by
  induction as with
  | nil => simp [hasSame]
  | cons a as ih => simp [hasSame, ih]

/-- Every type of the one list is the same as one of the other list, both ways. -/
def SameMembers (as bs : List FieldType) : Prop :=
  (∀ a ∈ as, ∃ b ∈ bs, same a b = true) ∧ ∀ b ∈ bs, ∃ a ∈ as, same a b = true

/-- The same names in the same order, at types that are the same. -/
def SameFields (as bs : List (String × FieldType)) : Prop :=
  List.Forall₂ (fun a b => a.1 = b.1 ∧ same a.2 b.2 = true) as bs

theorem sameFields_iff {as bs : List (String × FieldType)} :
    sameFields as bs = true ↔ SameFields as bs := by
  unfold SameFields
  induction as generalizing bs with
  | nil => cases bs <;> simp [sameFields]
  | cons a as ih =>
    cases bs with
    | nil => simp [sameFields]
    | cons b bs => rw [sameFields, List.forall₂_cons, ← ih]; simp [and_assoc]

theorem same_any_iff {b : FieldType} : same any b = true ↔ b = any := by
  cases b <;> simp [same]

theorem same_primitive_iff {kind : Primitive} {b : FieldType} :
    same (primitive kind) b = true ↔ b = primitive kind := by
  cases b with
  | primitive other =>
    rw [same, beq_iff_eq, primitive.injEq]
    exact eq_comm
  | _ => simp [same]

theorem same_literal_iff {value : Literal} {b : FieldType} :
    same (literal value) b = true ↔ ∃ other, b = literal other ∧ value.same other = true := by
  cases b <;> simp [same]

theorem same_array_iff {element b : FieldType} :
    same (array element) b = true ↔ ∃ other, b = array other ∧ same element other = true := by
  cases b <;> simp [same]

theorem same_map_iff {fields : List (String × FieldType)} {b : FieldType} :
    same (map fields) b = true ↔ ∃ others, b = map others ∧ SameFields fields others := by
  cases b <;> simp [same, sameFields_iff]

theorem same_union_iff {members : List FieldType} {b : FieldType} :
    same (union members) b = true ↔ ∃ others, b = union others ∧ SameMembers members others := by
  cases b <;> simp [same, allIn_iff, hasSame_iff, SameMembers]

theorem same_refl (a : FieldType) : same a a = true := by
  induction a with
  | any => exact same_any_iff.2 rfl
  | primitive kind => exact same_primitive_iff.2 rfl
  | literal value => exact same_literal_iff.2 ⟨value, rfl, value.same_refl⟩
  | array element ih => exact same_array_iff.2 ⟨element, rfl, ih⟩
  | map fields ih =>
    refine same_map_iff.2 ⟨fields, rfl, ?_⟩
    rw [SameFields, List.forall₂_same]
    exact fun field hf => ⟨rfl, ih field hf⟩
  | union members ih =>
    refine same_union_iff.2 ⟨members, rfl, ?_⟩
    exact ⟨fun a ha => ⟨a, ha, ih a ha⟩, fun a ha => ⟨a, ha, ih a ha⟩⟩

theorem same_symm {a b : FieldType} (h : same a b = true) : same b a = true := by
  induction a generalizing b with
  | any =>
    obtain rfl := same_any_iff.1 h
    exact h
  | primitive kind =>
    obtain rfl := same_primitive_iff.1 h
    exact h
  | literal value =>
    obtain ⟨other, rfl, hv⟩ := same_literal_iff.1 h
    exact same_literal_iff.2 ⟨value, rfl, Literal.same_symm hv⟩
  | array element ih =>
    obtain ⟨other, rfl, he⟩ := same_array_iff.1 h
    exact same_array_iff.2 ⟨element, rfl, ih he⟩
  | map fields ih =>
    obtain ⟨others, rfl, hf⟩ := same_map_iff.1 h
    refine same_map_iff.2 ⟨fields, rfl, ?_⟩
    clear h
    induction hf with
    | nil => exact .nil
    | cons hd _ ht =>
      have htail := ht fun field hf => ih field (List.mem_cons_of_mem _ hf)
      exact .cons ⟨hd.1.symm, ih _ List.mem_cons_self hd.2⟩ htail
  | union members ih =>
    obtain ⟨others, rfl, hforth, hback⟩ := same_union_iff.1 h
    refine same_union_iff.2 ⟨members, rfl, ?_, ?_⟩
    · intro b hb
      obtain ⟨a, ha, hab⟩ := hback b hb
      exact ⟨a, ha, ih a ha hab⟩
    · intro a ha
      obtain ⟨b, hb, hab⟩ := hforth a ha
      exact ⟨b, hb, ih a ha hab⟩

theorem same_trans {a b c : FieldType} (hab : same a b = true) (hbc : same b c = true) :
    same a c = true := by
  induction a generalizing b c with
  | any =>
    obtain rfl := same_any_iff.1 hab
    exact hbc
  | primitive kind =>
    obtain rfl := same_primitive_iff.1 hab
    exact hbc
  | literal value =>
    obtain ⟨other, rfl, hv⟩ := same_literal_iff.1 hab
    obtain ⟨third, rfl, hw⟩ := same_literal_iff.1 hbc
    exact same_literal_iff.2 ⟨third, rfl, Literal.same_trans hv hw⟩
  | array element ih =>
    obtain ⟨other, rfl, he⟩ := same_array_iff.1 hab
    obtain ⟨third, rfl, hf⟩ := same_array_iff.1 hbc
    exact same_array_iff.2 ⟨third, rfl, ih he hf⟩
  | map fields ih =>
    obtain ⟨others, rfl, hf⟩ := same_map_iff.1 hab
    obtain ⟨thirds, rfl, hg⟩ := same_map_iff.1 hbc
    refine same_map_iff.2 ⟨thirds, rfl, ?_⟩
    clear hab hbc
    induction hf generalizing thirds with
    | nil =>
      cases hg
      exact .nil
    | cons hd _ ht =>
      cases hg with
      | cons hd' hg =>
        have htail := ht (fun field hf => ih field (List.mem_cons_of_mem _ hf)) _ hg
        exact .cons ⟨hd.1.trans hd'.1, ih _ List.mem_cons_self hd.2 hd'.2⟩ htail
  | union members ih =>
    obtain ⟨others, rfl, habForth, habBack⟩ := same_union_iff.1 hab
    obtain ⟨thirds, rfl, hbcForth, hbcBack⟩ := same_union_iff.1 hbc
    refine same_union_iff.2 ⟨thirds, rfl, ?_, ?_⟩
    · intro a ha
      obtain ⟨b, hb, h⟩ := habForth a ha
      obtain ⟨c, hc, h'⟩ := hbcForth b hb
      exact ⟨c, hc, ih a ha h h'⟩
    · intro c hc
      obtain ⟨b, hb, h'⟩ := hbcBack c hc
      obtain ⟨a, ha, h⟩ := habBack b hb
      exact ⟨a, ha, ih a ha h h'⟩

/-- A test that does not tell same types apart finds them in both of two lists or in neither. -/
theorem any_congr_of_sameMembers {as bs : List FieldType} (h : SameMembers as bs)
    {test : FieldType → Bool} (htest : ∀ a b, same a b = true → test a = test b) :
    as.any test = bs.any test := by
  rw [Bool.eq_iff_iff, List.any_eq_true, List.any_eq_true]
  constructor
  · intro h
    obtain ⟨a, ha, hta⟩ := h
    obtain ⟨b, hb, hab⟩ := h.1 a ha
    exact ⟨b, hb, htest a b hab ▸ hta⟩
  · intro h
    obtain ⟨b, hb, htb⟩ := h
    obtain ⟨a, ha, hab⟩ := h.2 b hb
    exact ⟨a, ha, (htest a b hab).symm ▸ htb⟩

end FieldType

namespace Schema

theorem same_iff {a b : Schema} :
    a.same b = true ↔ FieldType.same (.map a.fields) (.map b.fields) = true := by
  rw [same, FieldType.same]

theorem same_refl (a : Schema) : a.same a = true := same_iff.2 (FieldType.same_refl _)

theorem same_symm {a b : Schema} (h : a.same b = true) : b.same a = true :=
  same_iff.2 (FieldType.same_symm (same_iff.1 h))

theorem same_trans {a b c : Schema} (hab : a.same b = true) (hbc : b.same c = true) :
    a.same c = true :=
  same_iff.2 (FieldType.same_trans (same_iff.1 hab) (same_iff.1 hbc))

end Schema
end SchemaAtlas
