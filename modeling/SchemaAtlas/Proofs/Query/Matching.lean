import Mathlib.Data.List.Pairwise
import Mathlib.Data.List.Sort
import SchemaAtlas.Proofs.Query.WellFormed

/-!
# Unions that hold the same

Two unions are compared by all that can be asked of them: whether they are of any shape, which schemas
they hold, the origins of each one, and which schemas were there before any filtering. Equality of
unions looks at the first two only, while filters need the last one and what is shown has the origins.
-/
namespace SchemaAtlas

namespace SchemaUnion

/-- The origins of a schema in their order, of which there are none if the union does not hold it. -/
def originsOf (u : SchemaUnion) (s : Schema) : List String :=
  match u.variants.find? (·.schema.same s) with
  | some v => v.origins
  | none => []

/-- Whether a schema was there before any filtering. -/
def declaresSchema (u : SchemaUnion) (s : Schema) : Bool := u.declaredSchemas.any (·.same s)

/-- The same schemas with the same origins in the same order, or any shape in both. -/
structure Matches (u w : SchemaUnion) : Prop where
  isGeneric : u.isGeneric = w.isGeneric
  contains : ∀ s, u.contains s = w.contains s
  originsOf : ∀ s, u.originsOf s = w.originsOf s

/-- The same in everything, in what was there before any filtering too. -/
structure Coincides (u w : SchemaUnion) : Prop extends Matches u w where
  declaresSchema : ∀ s, u.declaresSchema s = w.declaresSchema s

namespace Coincides

variable {u w x : SchemaUnion}

theorem refl (u : SchemaUnion) : u.Coincides u :=
  ⟨⟨rfl, fun _ => rfl, fun _ => rfl⟩, fun _ => rfl⟩

theorem symm (h : u.Coincides w) : w.Coincides u where
  isGeneric := h.isGeneric.symm
  contains s := (h.contains s).symm
  originsOf s := (h.originsOf s).symm
  declaresSchema s := (h.declaresSchema s).symm

theorem trans (huw : u.Coincides w) (hwx : w.Coincides x) : u.Coincides x where
  isGeneric := huw.isGeneric.trans hwx.isGeneric
  contains s := (huw.contains s).trans (hwx.contains s)
  originsOf s := (huw.originsOf s).trans (hwx.originsOf s)
  declaresSchema s := (huw.declaresSchema s).trans (hwx.declaresSchema s)

end Coincides

variable {u w : SchemaUnion} {s : Schema} {origin : String}

theorem declaresSchema_iff : u.declaresSchema s = true ↔ ∃ d ∈ u.declaredSchemas, d.same s = true :=
  List.any_eq_true

theorem declaresSchema_filtered (keep : Schema → Bool) (u : SchemaUnion) (s : Schema) :
    (u.filtered keep).declaresSchema s = u.declaresSchema s := by
  rw [declaresSchema, declaredSchemas_filtered, declaresSchema]

/-- A union with changed schemas was not filtered since, so it declares what it holds. -/
theorem declaresSchema_mapped (change : Schema → Schema) (u : SchemaUnion) (s : Schema) :
    (u.mapped change).declaresSchema s = (u.mapped change).contains s := by
  rw [declaresSchema, declaredSchemas_mapped, contains]

theorem declares_iff {field : Value} :
    u.Declares field ↔
      ∃ name, field = .text name ∧ ∃ s, u.declaresSchema s = true ∧ s.hasField name = true := by
  refine exists_congr fun name => and_congr_right fun _ => ?_
  constructor
  · rintro ⟨s, hs, hfield⟩
    exact ⟨s, declaresSchema_iff.2 ⟨s, hs, s.same_refl⟩, hfield⟩
  · rintro ⟨s, hs, hfield⟩
    obtain ⟨d, hd, hsame⟩ := declaresSchema_iff.1 hs
    exact ⟨d, hd, Schema.hasField_of_same (Schema.same_symm hsame) hfield⟩

theorem HasOrigin.isGeneric (h : u.HasOrigin s origin) : u.isGeneric = false := by
  obtain ⟨v, hv, -⟩ := h
  cases u with
  | generic => cases hv
  | candidates => rfl

theorem isGeneric_eq_false_of_declaresSchema (h : u.declaresSchema s = true) :
    u.isGeneric = false := by
  cases u with
  | generic => cases h
  | candidates => rfl

/-- Of variants that have no schema in common only one can have a given schema. -/
theorem Distinct.eq_of_same {variants : List Variant} (h : Distinct variants) {v v' : Variant}
    (hv : v ∈ variants) (hv' : v' ∈ variants) (hsame : v.schema.same s = true)
    (hsame' : v'.schema.same s = true) : v = v' := by
  by_contra hne
  have hsymm : Std.Symm fun a b : Variant => a.schema.same b.schema = false := by
    refine ⟨fun a b hab => ?_⟩
    rw [← Bool.not_eq_true] at hab ⊢
    exact fun hba => hab (Schema.same_symm hba)
  have hdiffer : v.schema.same v'.schema = false := h.forall hv hv' hne
  have hboth : v.schema.same v'.schema = true := Schema.same_trans hsame (Schema.same_symm hsame')
  rw [hdiffer] at hboth
  cases hboth

theorem WellFormed.mem_originsOf (hu : u.WellFormed) :
    origin ∈ u.originsOf s ↔ u.HasOrigin s origin := by
  unfold SchemaUnion.originsOf
  split
  · rename_i v hfound
    have hv : v ∈ u.variants := List.mem_of_find?_eq_some hfound
    have hsame : v.schema.same s = true := by simpa using List.find?_some hfound
    constructor
    · intro horigin
      exact ⟨v, hv, hsame, horigin⟩
    · rintro ⟨v', hv', hsame', horigin⟩
      rw [hu.distinct.eq_of_same hv hv' hsame hsame']
      exact horigin
  · rename_i hnone
    have hall := List.find?_eq_none.1 hnone
    constructor
    · intro horigin
      cases horigin
    · rintro ⟨v, hv, hsame, -⟩
      exact absurd hsame (hall v hv)

theorem WellFormed.pairwise_originsOf (hu : u.WellFormed) (s : Schema) :
    (u.originsOf s).Pairwise (· < ·) := by
  unfold SchemaUnion.originsOf
  split
  · rename_i v hfound
    exact hu.ascending v (List.mem_of_find?_eq_some hfound)
  · exact .nil

theorem Agrees.symm (h : u.Agrees w) : w.Agrees u where
  isGeneric := h.isGeneric.symm
  contains s := (h.contains s).symm
  hasOrigin s origin := (h.hasOrigin s origin).symm

/-- Origins that are the same texts are in the same order. -/
theorem Agrees.matches (h : u.Agrees w) (hu : u.WellFormed) (hw : w.WellFormed) : u.Matches w where
  isGeneric := h.isGeneric
  contains s := Bool.eq_iff_iff.2 (h.contains s)
  originsOf s := by
    have hirrefl : Std.Irrefl fun a b : String => a < b := ⟨String.lt_irrefl⟩
    have hantisymm : Std.Antisymm fun a b : String => a < b :=
      ⟨fun a b hab hba => absurd (String.lt_trans hab hba) (String.lt_irrefl a)⟩
    refine (hu.pairwise_originsOf s).eq_of_mem_iff (hw.pairwise_originsOf s) fun origin => ?_
    rw [hu.mem_originsOf, hw.mem_originsOf]
    exact h.hasOrigin s origin

theorem Matches.hasOrigin_iff (h : u.Matches w) (hu : u.WellFormed) (hw : w.WellFormed) :
    u.HasOrigin s origin ↔ w.HasOrigin s origin := by
  rw [← hu.mem_originsOf, ← hw.mem_originsOf, h.originsOf]

/-- Equality of unions compares less than this. -/
theorem Matches.same (h : u.Matches w) : u.same w = true := by
  have hall : ∀ x : SchemaUnion, x.schemas.all x.contains = true := by
    intro x
    refine List.all_eq_true.2 fun s hs => ?_
    exact List.any_eq_true.2 ⟨s, hs, s.same_refl⟩
  have hcontains : u.contains = w.contains := funext h.contains
  rw [SchemaUnion.same, h.isGeneric, ← hcontains, hall u, hcontains, hall w, beq_self_eq_true]
  rfl

/--
Unions that operations on unions made hold the same if their flags, origins and schemas before any
filtering are the same.
-/
theorem Reachable.coincides (hu : u.Reachable) (hw : w.Reachable)
    (hgeneric : u.isGeneric = w.isGeneric)
    (horigin : ∀ s origin, u.HasOrigin s origin ↔ w.HasOrigin s origin)
    (hdeclared : ∀ s, u.declaresSchema s = w.declaresSchema s) : u.Coincides w :=
  ⟨(hu.agrees hw hgeneric horigin).matches hu.wellFormed hw.wellFormed, hdeclared⟩

end SchemaUnion
end SchemaAtlas
