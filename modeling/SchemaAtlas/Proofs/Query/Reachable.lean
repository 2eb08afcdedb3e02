import SchemaAtlas.Proofs.Except
import SchemaAtlas.Proofs.FieldType.Subtyping
import SchemaAtlas.Proofs.Query.Narrowing
import SchemaAtlas.Query.Projection

/-!
# Reachable unions

The unions of schemas that the operations on unions can make. In each of them every variant was there
before any filtering: some declared schema is the same as its schema, and so has the same fields.
-/
namespace SchemaAtlas

namespace Schema

theorem descend_of_same {a b t : FieldType} {names : List String}
    (hab : FieldType.same a b = true) (h : descend a names = some t) :
    ∃ t', descend b names = some t' ∧ FieldType.same t t' = true := by
  induction names generalizing a b with
  | nil =>
    obtain rfl := Option.some.inj h
    exact ⟨b, rfl, hab⟩
  | cons name rest ih =>
    cases a with
    | map fields =>
      obtain ⟨others, rfl, hfields⟩ := FieldType.same_map_iff.1 hab
      rw [descend] at h
      cases hnext : Fields.get? fields name with
      | none =>
        rw [hnext] at h
        cases h
      | some next =>
        rw [hnext] at h
        obtain ⟨next', hnext', hsame⟩ := FieldType.lookup_of_sameFields hfields hnext
        rw [descend, Fields.get?, hnext']
        exact ih hsame h
    | _ => cases h

/-- The same schemas have the same fields, at types that are the same. -/
theorem fieldAt?_of_same {a b : Schema} {path : String} {t : FieldType} (hab : a.same b = true)
    (h : a.fieldAt? path = some t) : ∃ t', b.fieldAt? path = some t' ∧ FieldType.same t t' = true := by
  have hforth := FieldType.sameFields_iff.1 hab
  have hback := FieldType.sameFields_iff.1 (Schema.same_symm hab)
  unfold fieldAt? at h ⊢
  cases hwhole : a.fields.get? path with
  | some whole =>
    rw [hwhole] at h
    obtain rfl := Option.some.inj h
    obtain ⟨whole', hwhole', hsame⟩ := FieldType.lookup_of_sameFields hforth hwhole
    exact ⟨whole', by rw [Fields.get?, hwhole'], hsame⟩
  | none =>
    have hwhole' : b.fields.get? path = none := by
      cases hb : b.fields.get? path with
      | none => rfl
      | some other =>
        obtain ⟨_, hother, -⟩ := FieldType.lookup_of_sameFields hback hb
        exact absurd (hwhole.symm.trans hother) nofun
    rw [hwhole] at h
    rw [hwhole']
    dsimp only at h ⊢
    split at h
    · cases h
    · cases h
    · rename_i head rest hsplit
      split at h
      · rename_i next hnext
        obtain ⟨next', hnext', hsame⟩ := FieldType.lookup_of_sameFields hforth hnext
        obtain ⟨t', ht', hsame'⟩ := descend_of_same hsame h
        exact ⟨t', by simp only [Fields.get?, hnext', ht'], hsame'⟩
      · cases h

theorem hasField_of_same {a b : Schema} {path : String} (hab : a.same b = true)
    (h : a.hasField path = true) : b.hasField path = true := by
  obtain ⟨t, ht⟩ := Option.isSome_iff_exists.1 h
  obtain ⟨t', ht', -⟩ := fieldAt?_of_same hab ht
  exact Option.isSome_iff_exists.2 ⟨t', ht'⟩

end Schema

namespace SchemaUnion

/-- Narrowing leaves a union as it is, widens it or filters it. -/
theorem narrow_cases {u w : SchemaUnion} {p : Predicate} (h : u.narrow p = .ok w) :
    w = u ∨ w = generic ∨ ∃ keep, w = u.filtered keep := by
  unfold narrow filterBy at h
  split at h
  · exact .inl (Except.ok.inj h).symm
  · split at h
    · exact .inr (.inl (Except.ok.inj h).symm)
    · split at h
      · cases h
      · exact .inr (.inr ⟨_, (Except.ok.inj h).symm⟩)

/-- Projecting leaves a union as it is, widens it or changes its schemas. -/
theorem project_cases {u w : SchemaUnion} {fields : Value} (h : u.project fields = .ok w) :
    w = u ∨ w = generic ∨ ∃ change, w = u.mapped change := by
  unfold project at h
  split at h
  · exact .inl (Except.ok.inj h).symm
  · split at h
    · obtain rfl := Except.ok.inj h
      unfold select
      split
      · exact .inl rfl
      · split
        · exact .inr (.inr ⟨_, rfl⟩)
        · exact .inr (.inl rfl)
    · cases h

/-- The unions that are made from pairs of schemas and origins by the operations on unions. -/
inductive Reachable : SchemaUnion → Prop
  | empty : Reachable empty
  | generic : Reachable generic
  | ofPairs (pairs : List (Schema × String)) : Reachable (ofPairs pairs)
  | union {u w : SchemaUnion} (hu : Reachable u) (hw : Reachable w) : Reachable (u.union w)
  | filtered {u : SchemaUnion} (hu : Reachable u) (keep : Schema → Bool) :
    Reachable (u.filtered keep)
  | mapped {u : SchemaUnion} (hu : Reachable u) (change : Schema → Schema) :
    Reachable (u.mapped change)
  | narrow {u w : SchemaUnion} {p : Predicate} (hu : Reachable u) (h : u.narrow p = .ok w) :
    Reachable w
  | project {u w : SchemaUnion} {fields : Value} (hu : Reachable u) (h : u.project fields = .ok w) :
    Reachable w

/-- Every variant was there before any filtering. -/
def Rooted (u : SchemaUnion) : Prop :=
  ∀ v ∈ u.variants, ∃ s ∈ u.declaredSchemas, s.same v.schema = true

namespace Rooted

theorem unfiltered (variants : List Variant) : (candidates variants none).Rooted :=
  fun v hv => ⟨v.schema, List.mem_map_of_mem hv, v.schema.same_refl⟩

theorem mem_addVariant {schema : Schema} {origins : List String} {variants : List Variant}
    {v : Variant} (h : v ∈ addVariant schema origins variants) :
    v.schema = schema ∨ ∃ w ∈ variants, v.schema = w.schema := by
  induction variants with
  | nil =>
    obtain rfl := List.mem_singleton.1 h
    exact .inl rfl
  | cons head rest ih =>
    rw [addVariant] at h
    split at h
    · rcases List.mem_cons.1 h with rfl | h
      · exact .inr ⟨head, List.mem_cons_self, rfl⟩
      · exact .inr ⟨v, List.mem_cons_of_mem _ h, rfl⟩
    · rcases List.mem_cons.1 h with rfl | h
      · exact .inr ⟨v, List.mem_cons_self, rfl⟩
      · refine (ih h).imp_right fun h => ?_
        obtain ⟨w, hw, hschema⟩ := h
        exact ⟨w, List.mem_cons_of_mem _ hw, hschema⟩

theorem mem_collect {variants more : List Variant} {v : Variant} (h : v ∈ collect variants more) :
    ∃ w, (w ∈ variants ∨ w ∈ more) ∧ v.schema = w.schema := by
  unfold collect at h
  induction more generalizing variants with
  | nil => exact ⟨v, .inl h, rfl⟩
  | cons head rest ih =>
    obtain ⟨w, hw | hw, hschema⟩ := ih h
    · rcases mem_addVariant hw with heq | ⟨w', hw', heq⟩
      · exact ⟨head, .inr List.mem_cons_self, hschema.trans heq⟩
      · exact ⟨w', .inl hw', hschema.trans heq⟩
    · exact ⟨w, .inr (List.mem_cons_of_mem _ hw), hschema⟩

theorem exists_of_mem_collect {u w : SchemaUnion} (hu : u.Rooted) (hw : w.Rooted) {v : Variant}
    (hv : v ∈ collect u.variants w.variants) :
    ∃ s ∈ distinctBy Schema.same (u.declaredSchemas ++ w.declaredSchemas),
      s.same v.schema = true := by
  have hdeclared : ∃ s ∈ u.declaredSchemas ++ w.declaredSchemas, s.same v.schema = true := by
    obtain ⟨other, hother | hother, hschema⟩ := mem_collect hv
    · obtain ⟨s, hs, hsame⟩ := hu other hother
      exact ⟨s, List.mem_append_left _ hs, hschema ▸ hsame⟩
    · obtain ⟨s, hs, hsame⟩ := hw other hother
      exact ⟨s, List.mem_append_right _ hs, hschema ▸ hsame⟩
  obtain ⟨s, hs, hsame⟩ := hdeclared
  obtain ⟨kept, hkept, hsame'⟩ := exists_mem_distinctBy Schema.same_refl hs
  exact ⟨kept, hkept, Schema.same_trans hsame' hsame⟩

theorem union {u w : SchemaUnion} (hu : u.Rooted) (hw : w.Rooted) : (u.union w).Rooted := by
  cases u with
  | generic => exact nofun
  | candidates vs d =>
    cases w with
    | generic => cases d <;> exact nofun
    | candidates ws e =>
      have hmerged : ∀ v ∈ collect vs ws, _ := fun v hv => exists_of_mem_collect hu hw hv
      cases d with
      | none =>
        cases e with
        | none => exact unfiltered _
        | some _ => exact hmerged
      | some _ => cases e <;> exact hmerged

theorem filtered {u : SchemaUnion} (hu : u.Rooted) (keep : Schema → Bool) :
    (u.filtered keep).Rooted := by
  intro v hv
  rw [variants_filtered] at hv
  rw [declaredSchemas_filtered]
  exact hu v (List.mem_of_mem_filter hv)

theorem mapped (u : SchemaUnion) (change : Schema → Schema) : (u.mapped change).Rooted := by
  cases u with
  | generic => exact nofun
  | candidates variants filteredFrom => exact unfiltered _

theorem narrow {u w : SchemaUnion} {p : Predicate} (hu : u.Rooted) (h : u.narrow p = .ok w) :
    w.Rooted := by
  obtain rfl | rfl | ⟨keep, rfl⟩ := narrow_cases h
  · exact hu
  · exact nofun
  · exact hu.filtered keep

theorem project {u w : SchemaUnion} {fields : Value} (hu : u.Rooted)
    (h : u.project fields = .ok w) : w.Rooted := by
  obtain rfl | rfl | ⟨change, rfl⟩ := project_cases h
  · exact hu
  · exact nofun
  · exact mapped u change

end Rooted

theorem Reachable.rooted {u : SchemaUnion} (h : u.Reachable) : u.Rooted := by
  induction h with
  | empty => exact Rooted.unfiltered []
  | generic => exact nofun
  | ofPairs pairs => exact Rooted.unfiltered _
  | union hu hw ihu ihw => exact ihu.union ihw
  | filtered hu keep ih => exact ih.filtered keep
  | mapped hu change ih => exact Rooted.mapped _ change
  | narrow hu h ih => exact ih.narrow h
  | project hu h ih => exact ih.project h

/-- A reachable union declares every field of its variants. -/
theorem Reachable.declares {u : SchemaUnion} (h : u.Reachable) {v : Variant} (hv : v ∈ u.variants)
    {name : String} (hfield : v.schema.hasField name = true) : u.Declares (.text name) := by
  obtain ⟨s, hs, hsame⟩ := h.rooted v hv
  exact ⟨name, rfl, s, hs, Schema.hasField_of_same (Schema.same_symm hsame) hfield⟩

theorem exists_of_narrowAll_cons {u w : SchemaUnion} {p : Predicate} {ps : List Predicate}
    (h : u.narrowAll (p :: ps) = .ok w) : ∃ next, u.narrow p = .ok next ∧ next.narrowAll ps = .ok w :=
  exists_of_bind_eq_ok h

theorem Reachable.narrowAll {u w : SchemaUnion} {ps : List Predicate} (hu : u.Reachable)
    (h : u.narrowAll ps = .ok w) : w.Reachable := by
  induction ps generalizing u with
  | nil =>
    obtain rfl := Except.ok.inj h
    exact hu
  | cons p ps ih =>
    obtain ⟨next, hnext, hrest⟩ := exists_of_narrowAll_cons h
    exact ih (hu.narrow hnext) hrest

/-- Narrowing forgets what is declared only by widening. -/
theorem declaredSchemas_narrowAll {u w : SchemaUnion} {ps : List Predicate}
    (h : u.narrowAll ps = .ok w) (hw : w.isGeneric = false) :
    w.declaredSchemas = u.declaredSchemas := by
  induction ps generalizing u with
  | nil =>
    obtain rfl := Except.ok.inj h
    rfl
  | cons p ps ih =>
    obtain ⟨next, hnext, hrest⟩ := exists_of_narrowAll_cons h
    have hdeclared := ih hrest
    obtain heq | heq | ⟨keep, heq⟩ := narrow_cases hnext
    · rw [hdeclared, heq]
    · rw [heq, narrowAll_of_unfilterable rfl] at hrest
      obtain rfl := Except.ok.inj hrest
      cases hw
    · rw [hdeclared, heq, declaredSchemas_filtered]

end SchemaUnion
end SchemaAtlas
