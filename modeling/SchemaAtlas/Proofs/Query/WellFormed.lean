import SchemaAtlas.Proofs.Query.Projection

/-!
# What every union keeps

The operations on unions rebuild variants and origins each in its own way. Whatever they are applied
to and in whatever order, no two variants of a union have the same schema, the origins of each one
ascend without repetition and are not empty, and what a union holds was declared.
-/
namespace SchemaAtlas

namespace SchemaUnion

/-- No two variants have the same schema. -/
def Distinct (variants : List Variant) : Prop :=
  variants.Pairwise fun v w => v.schema.same w.schema = false

/-- The origins of every variant are in ascending order without repetition. -/
def Ascending (variants : List Variant) : Prop := ∀ v ∈ variants, v.origins.Pairwise (· < ·)

theorem distinct_addVariant (schema : Schema) (origins : List String) {variants : List Variant}
    (h : Distinct variants) : Distinct (addVariant schema origins variants) := by
  induction variants with
  | nil => exact List.pairwise_singleton _ _
  | cons head rest ih =>
    obtain ⟨hhead, hrest⟩ := List.pairwise_cons.1 h
    rw [addVariant]
    split
    · exact List.pairwise_cons.2 ⟨hhead, hrest⟩
    · rename_i hnew
      refine List.pairwise_cons.2 ⟨fun v hv => ?_, ih hrest⟩
      rcases Rooted.mem_addVariant hv with heq | ⟨w, hw, heq⟩
      · rw [heq]
        exact eq_false_of_ne_true hnew
      · rw [heq]
        exact hhead w hw

theorem distinct_collect (more : List Variant) {variants : List Variant} (h : Distinct variants) :
    Distinct (collect variants more) := by
  unfold collect
  induction more generalizing variants with
  | nil => exact h
  | cons head rest ih => exact ih (distinct_addVariant head.schema head.origins h)

/-- Origins are put in order as they are added, in whatever order they come. -/
theorem ascending_collect (more : List Variant) {variants : List Variant} (h : Ascending variants) :
    Ascending (collect variants more) := by
  have hnew : ∀ more : List String, True → (addOrigins [] more).Pairwise (· < ·) :=
    fun more _ => pairwise_addOrigins more .nil
  have hadd : ∀ origins more : List String, origins.Pairwise (· < ·) → True →
      (addOrigins origins more).Pairwise (· < ·) :=
    fun origins more horigins _ => pairwise_addOrigins more horigins
  exact forall_origins_collect (Q := fun _ => True) hnew hadd (fun _ _ => trivial) h

/-- What holds of a union whichever operations made it. -/
structure WellFormed (u : SchemaUnion) : Prop where
  generic : u.isGeneric = true → u.variants = []
  distinct : Distinct u.variants
  ascending : Ascending u.variants
  originated : u.Originated
  rooted : u.Rooted
  declared : u.declaredSchemas.Pairwise fun a b => a.same b = false

namespace WellFormed

variable {u w : SchemaUnion}

theorem ofGeneric : SchemaUnion.generic.WellFormed where
  generic _ := rfl
  distinct := .nil
  ascending := nofun
  originated := nofun
  rooted := nofun
  declared := .nil

/-- Variants that are collected anew declare themselves. -/
theorem collected {more : List Variant} (hmore : ∀ v ∈ more, ∃ o, o ∈ v.origins) :
    (candidates (collect [] more) none).WellFormed where
  generic := nofun
  distinct := distinct_collect more .nil
  ascending := ascending_collect more nofun
  originated := origins_collect hmore nofun
  rooted := Rooted.unfiltered _
  declared := List.pairwise_map.2 (distinct_collect more .nil)

theorem ofPairs (pairs : List (Schema × String)) : (ofPairs pairs).WellFormed := by
  refine collected fun v hv => ?_
  obtain ⟨pair, _, rfl⟩ := List.mem_map.1 hv
  exact ⟨pair.2, List.mem_singleton.2 rfl⟩

/-- What two unions declare is distinct together, whichever of them was filtered. -/
theorem declared_union (hu : u.WellFormed) :
    (u.union w).declaredSchemas.Pairwise fun a b => a.same b = false := by
  rcases u with _ | ⟨vs, _ | d⟩
  case generic => exact .nil
  all_goals rcases w with _ | ⟨ws, _ | e⟩
  case candidates.none.candidates.none =>
    exact List.pairwise_map.2 (distinct_collect ws hu.distinct)
  case candidates.none.generic | candidates.some.generic => exact .nil
  all_goals exact pairwise_distinctBy _ _

theorem union (hu : u.WellFormed) (hw : w.WellFormed) : (u.union w).WellFormed where
  generic := variants_of_isGeneric
  distinct := by
    rcases variants_union_cases u w with h | h
    · exact h ▸ .nil
    · exact h ▸ distinct_collect _ hu.distinct
  ascending := by
    rcases variants_union_cases u w with h | h
    · exact h ▸ nofun
    · exact h ▸ ascending_collect _ hu.ascending
  originated := hu.originated.union hw.originated
  rooted := hu.rooted.union hw.rooted
  declared := declared_union hu

theorem filtered (hu : u.WellFormed) (keep : Schema → Bool) : (u.filtered keep).WellFormed where
  generic := variants_of_isGeneric
  distinct := by
    rw [variants_filtered]
    exact hu.distinct.filter _
  ascending := by
    rw [variants_filtered]
    exact fun v hv => hu.ascending v (List.mem_of_mem_filter hv)
  originated := hu.originated.filtered keep
  rooted := hu.rooted.filtered keep
  declared := by
    rw [declaredSchemas_filtered]
    exact hu.declared

theorem mapped (hu : u.WellFormed) (change : Schema → Schema) : (u.mapped change).WellFormed := by
  cases u with
  | generic => exact ofGeneric
  | candidates vs d =>
    refine collected fun v hv => ?_
    obtain ⟨former, hformer, rfl⟩ := List.mem_map.1 hv
    exact hu.originated former (mem_ordered.1 hformer)

theorem narrow (hu : u.WellFormed) {p : Predicate} (h : u.narrow p = .ok w) : w.WellFormed := by
  obtain rfl | rfl | ⟨keep, rfl⟩ := narrow_cases h
  · exact hu
  · exact ofGeneric
  · exact hu.filtered keep

theorem project (hu : u.WellFormed) {fields : Value} (h : u.project fields = .ok w) :
    w.WellFormed := by
  obtain rfl | rfl | ⟨change, rfl⟩ := project_cases h
  · exact hu
  · exact ofGeneric
  · exact hu.mapped change

end WellFormed

theorem Reachable.wellFormed {u : SchemaUnion} (h : u.Reachable) : u.WellFormed := by
  induction h with
  | empty => exact .ofPairs []
  | generic => exact .ofGeneric
  | ofPairs pairs => exact .ofPairs pairs
  | union hu hw ihu ihw => exact ihu.union ihw
  | filtered hu keep ih => exact ih.filtered keep
  | mapped hu change ih => exact ih.mapped change
  | narrow hu h ih => exact ih.narrow h
  | project hu h ih => exact ih.project h

/--
Every union is well-formed and holds just the schemas that have an origin. Filtering leaves the kept
variants as they are. A union of two and a union with changed schemas have all origins of what they
are made from and no others.
-/
theorem wellFormed_and_keeps_origins_of_reachable {u : SchemaUnion} (hu : u.Reachable) :
    u.WellFormed ∧
      (∀ s, u.contains s = true ↔ ∃ origin, u.HasOrigin s origin) ∧
      (∀ keep v, v ∈ (u.filtered keep).variants ↔ v ∈ u.variants ∧ keep v.schema = true) ∧
      (∀ w, (u.union w).isGeneric = false → ∀ s origin,
        (u.union w).HasOrigin s origin ↔ u.HasOrigin s origin ∨ w.HasOrigin s origin) ∧
      ∀ change s origin, (u.mapped change).HasOrigin s origin ↔
        ∃ v ∈ u.variants, (change v.schema).same s = true ∧ origin ∈ v.origins := by
  refine ⟨hu.wellFormed, fun s => hu.contains_iff, fun keep v => ?_, fun w h s origin => ?_,
    fun change s origin => hasOrigin_mapped⟩
  · rw [variants_filtered, List.mem_filter]
  · exact hasOrigin_union h

/-- A schema that a filter dropped is back with its other origins only. -/
theorem wellFormed_and_keeps_origins_of_reachable_members :
    let name : Schema := ⟨[("name", .primitive .string)]⟩
    let titled : Schema := ⟨[("name", .literal (.text "none"))]⟩
    let members := (ofPairs [(name, "users/1"), (name, "admins/1"), (titled, "users/2")]).filtered
      fun s => s.same name
    let others := ofPairs [(titled, "guests/1"), (name, "admins/1"), (name, "guests/2")]
    members.Reachable ∧ (members.union others).isGeneric = false ∧
      (members.union others).WellFormed ∧
      (members.union others).variants.map (·.origins) =
        [["admins/1", "guests/2", "users/1"], ["guests/1"]] ∧
      ∀ s origin, (members.union others).HasOrigin s origin ↔
        members.HasOrigin s origin ∨ others.HasOrigin s origin := by
  intro name titled members others
  have hmembers : members.Reachable := .filtered (.ofPairs _) _
  have hothers : others.Reachable := .ofPairs _
  obtain ⟨-, -, -, hunion, -⟩ := wellFormed_and_keeps_origins_of_reachable hmembers
  obtain ⟨hwell, -⟩ := wellFormed_and_keeps_origins_of_reachable (hmembers.union hothers)
  exact ⟨hmembers, rfl, hwell, by decide +kernel, hunion others rfl⟩

end SchemaUnion
end SchemaAtlas
