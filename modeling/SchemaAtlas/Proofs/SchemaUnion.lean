import SchemaAtlas.Proofs.FieldType.Equality
import SchemaAtlas.SchemaUnion

/-!
# What a union of schemas holds

A union merges schemas that are the same, so what it holds is stated up to that equality: the
schemas it was made from, each with exactly the origins that some schema the same as it was given.
-/
namespace SchemaAtlas

namespace SchemaUnion

theorem mem_addOrigins {origins more : List String} {origin : String} :
    origin ∈ addOrigins origins more ↔ origin ∈ origins ∨ origin ∈ more :=
  mem_foldl_insertText

theorem pairwise_addOrigins {origins : List String} (more : List String)
    (h : origins.Pairwise (· < ·)) : (addOrigins origins more).Pairwise (· < ·) :=
  pairwise_foldl_insertText more h

/-- Some variant has a schema the same as the given one, with the origin. -/
def Sourced (variants : List Variant) (schema : Schema) (origin : String) : Prop :=
  ∃ v ∈ variants, v.schema.same schema = true ∧ origin ∈ v.origins

/-- Whether a union holds a schema, up to equality, with an origin. -/
def HasOrigin (u : SchemaUnion) (schema : Schema) (origin : String) : Prop :=
  Sourced u.variants schema origin

theorem sourced_cons {v : Variant} {variants : List Variant} {schema : Schema} {origin : String} :
    Sourced (v :: variants) schema origin ↔
      v.schema.same schema = true ∧ origin ∈ v.origins ∨ Sourced variants schema origin :=
  List.exists_mem_cons_iff ..

theorem same_congr_left {a b s : Schema} (h : a.same b = true) :
    a.same s = true ↔ b.same s = true :=
  ⟨Schema.same_trans (Schema.same_symm h), Schema.same_trans h⟩

theorem sourced_addVariant {schema s : Schema} {origins : List String} {variants : List Variant}
    {origin : String} :
    Sourced (addVariant schema origins variants) s origin ↔
      Sourced variants s origin ∨ schema.same s = true ∧ origin ∈ origins := by
  induction variants with
  | nil =>
    rw [addVariant, sourced_cons, mem_addOrigins, or_iff_right List.not_mem_nil, or_comm]
  | cons v vs ih =>
    rw [addVariant]
    split
    · rename_i hsame
      rw [sourced_cons, sourced_cons, mem_addOrigins, same_congr_left hsame]
      tauto
    · rw [sourced_cons, sourced_cons, ih, or_assoc]

theorem sourced_collect {variants more : List Variant} {s : Schema} {origin : String} :
    Sourced (collect variants more) s origin ↔
      Sourced variants s origin ∨ Sourced more s origin := by
  unfold collect
  induction more generalizing variants with
  | nil => simp [Sourced]
  | cons v vs ih => rw [List.foldl_cons, ih, sourced_addVariant, sourced_cons, or_assoc]

theorem variants_of_isGeneric {u : SchemaUnion} (h : u.isGeneric = true) : u.variants = [] := by
  cases u with
  | generic => rfl
  | candidates variants filteredFrom => cases h

theorem variants_union {u w : SchemaUnion} (h : (u.union w).isGeneric = false) :
    (u.union w).variants = collect u.variants w.variants := by
  rcases u with _ | ⟨vs, _ | d⟩ <;> rcases w with _ | ⟨ws, _ | e⟩ <;> first | rfl | cases h

theorem variants_union_cases (u w : SchemaUnion) :
    (u.union w).variants = [] ∨ (u.union w).variants = collect u.variants w.variants := by
  cases h : (u.union w).isGeneric with
  | true => exact .inl (variants_of_isGeneric h)
  | false => exact .inr (variants_union h)

/-- A union that is not generic holds what either part holds, with the origins it has there. -/
theorem hasOrigin_union {u w : SchemaUnion} (h : (u.union w).isGeneric = false) {s : Schema}
    {origin : String} :
    (u.union w).HasOrigin s origin ↔ u.HasOrigin s origin ∨ w.HasOrigin s origin := by
  rw [HasOrigin, variants_union h, sourced_collect]
  rfl

/-- A union of pairs holds the pairs it was made from. -/
theorem hasOrigin_ofPairs {pairs : List (Schema × String)} {s : Schema} {origin : String} :
    (ofPairs pairs).HasOrigin s origin ↔
      ∃ schema, (schema, origin) ∈ pairs ∧ schema.same s = true := by
  unfold HasOrigin ofPairs variants
  rw [sourced_collect]
  constructor
  · intro h
    rcases h with ⟨v, hv, _⟩ | ⟨v, hv, hsame, horigin⟩
    · exact absurd hv List.not_mem_nil
    · obtain ⟨⟨schema, other⟩, hpair, rfl⟩ := List.mem_map.1 hv
      obtain rfl := List.mem_singleton.1 horigin
      exact ⟨schema, hpair, hsame⟩
  · intro h
    obtain ⟨schema, hpair, hsame⟩ := h
    exact .inr ⟨_, List.mem_map_of_mem hpair, hsame, List.mem_singleton.2 rfl⟩

/-! ### The schemas alone -/

theorem contains_iff {u : SchemaUnion} {s : Schema} :
    u.contains s = true ↔ ∃ v ∈ u.variants, v.schema.same s = true := by
  rw [contains, schemas, List.any_map, List.any_eq_true]
  rfl

/-- What holds of the origins of every variant, and of more origins alone and added, holds on. -/
theorem forall_origins_addVariant {P : List String → Prop} {schema : Schema} {more : List String}
    (hnew : P (addOrigins [] more)) (hadd : ∀ origins, P origins → P (addOrigins origins more))
    {variants : List Variant} (hold : ∀ v ∈ variants, P v.origins) :
    ∀ v ∈ addVariant schema more variants, P v.origins := by
  induction variants with
  | nil => exact List.forall_mem_singleton.2 hnew
  | cons head rest ih =>
    obtain ⟨hhead, hrest⟩ := List.forall_mem_cons.1 hold
    rw [addVariant]
    split
    · exact List.forall_mem_cons.2 ⟨hadd _ hhead, hrest⟩
    · exact List.forall_mem_cons.2 ⟨hhead, ih hrest⟩

theorem forall_origins_collect {P Q : List String → Prop}
    (hnew : ∀ more, Q more → P (addOrigins [] more))
    (hadd : ∀ origins more, P origins → Q more → P (addOrigins origins more))
    {more : List Variant} (hmore : ∀ v ∈ more, Q v.origins) {variants : List Variant}
    (hold : ∀ v ∈ variants, P v.origins) : ∀ v ∈ collect variants more, P v.origins := by
  unfold collect
  induction more generalizing variants with
  | nil => exact hold
  | cons head rest ih =>
    obtain ⟨hhead, hrest⟩ := List.forall_mem_cons.1 hmore
    refine ih hrest (forall_origins_addVariant (hnew _ hhead) (fun origins horigins => ?_) hold)
    exact hadd origins _ horigins hhead

theorem origins_collect {more : List Variant} (hmore : ∀ v ∈ more, ∃ o, o ∈ v.origins)
    {variants : List Variant} (hold : ∀ v ∈ variants, ∃ o, o ∈ v.origins) :
    ∀ v ∈ collect variants more, ∃ o, o ∈ v.origins := by
  have hnew : ∀ more : List String, (∃ o, o ∈ more) → ∃ o, o ∈ addOrigins [] more := by
    intro more h
    obtain ⟨o, ho⟩ := h
    exact ⟨o, mem_addOrigins.2 (.inr ho)⟩
  have hadd : ∀ origins more : List String, (∃ o, o ∈ origins) → (∃ o, o ∈ more) →
      ∃ o, o ∈ addOrigins origins more := by
    intro origins more h _
    obtain ⟨o, ho⟩ := h
    exact ⟨o, mem_addOrigins.2 (.inl ho)⟩
  exact forall_origins_collect (P := fun origins => ∃ o, o ∈ origins) hnew hadd hmore hold

/-- No schema is in a union without an origin, so it is there exactly if some pair brought it. -/
theorem contains_ofPairs {pairs : List (Schema × String)} {s : Schema} :
    (ofPairs pairs).contains s = true ↔ ∃ pair ∈ pairs, pair.1.same s = true := by
  rw [contains_iff]
  constructor
  · intro h
    obtain ⟨v, hv, hsame⟩ := h
    have horigins : ∀ v ∈ (ofPairs pairs).variants, ∃ o, o ∈ v.origins := by
      refine origins_collect (fun v hv => ?_) fun v hv => absurd hv List.not_mem_nil
      obtain ⟨pair, _, rfl⟩ := List.mem_map.1 hv
      exact ⟨pair.2, List.mem_singleton.2 rfl⟩
    obtain ⟨origin, horigin⟩ := horigins v hv
    obtain ⟨schema, hpair, hschema⟩ := hasOrigin_ofPairs.1 ⟨v, hv, hsame, horigin⟩
    exact ⟨_, hpair, hschema⟩
  · intro h
    obtain ⟨⟨schema, origin⟩, hpair, hschema⟩ := h
    obtain ⟨v, hv, hsame, _⟩ := hasOrigin_ofPairs.2 ⟨schema, hpair, hschema⟩
    exact ⟨v, hv, hsame⟩

end SchemaUnion
end SchemaAtlas
