import SchemaAtlas.Proofs.FieldType.Normal
import SchemaAtlas.Proofs.FieldType.Rendering
import SchemaAtlas.Proofs.Query.Kept
import SchemaAtlas.Proofs.Query.Projection
import SchemaAtlas.Proofs.Tree.Schemas
import SchemaAtlas.Tree.Resolution

/-!
# Equality and inequality together

What a path resolves to consists of declared schemas, and the operations on unions keep it so. Of
these schemas, the ones that have a field are kept by a filter on equality or by the one on
inequality: a declared type that is below the type of a value has an alternative that overlaps it.
-/
namespace SchemaAtlas

namespace SchemaUnion

/-- All schemas of the union consist of declared types. -/
def OfDeclarations (u : SchemaUnion) : Prop := ∀ v ∈ u.variants, v.schema.Declared

namespace OfDeclarations

variable {u w : SchemaUnion}

theorem collect {variants more : List Variant} (h : ∀ v ∈ variants, v.schema.Declared)
    (hmore : ∀ v ∈ more, v.schema.Declared) :
    ∀ v ∈ SchemaUnion.collect variants more, v.schema.Declared := by
  intro v hv
  obtain ⟨source, hsource, heq⟩ := Rooted.mem_collect hv
  rw [heq]
  exact hsource.elim (h source) (hmore source)

theorem ofPairs {pairs : List (Schema × String)} (h : ∀ pair ∈ pairs, pair.1.Declared) :
    (ofPairs pairs).OfDeclarations := by
  refine collect nofun fun v hv => ?_
  obtain ⟨pair, hpair, rfl⟩ := List.mem_map.1 hv
  exact h pair hpair

theorem union (hu : u.OfDeclarations) (hw : w.OfDeclarations) : (u.union w).OfDeclarations := by
  unfold OfDeclarations
  rcases variants_union_cases u w with h | h
  · rw [h]
    exact nofun
  · rw [h]
    exact collect hu hw

theorem filtered (hu : u.OfDeclarations) (keep : Schema → Bool) :
    (u.filtered keep).OfDeclarations := by
  intro v hv
  rw [variants_filtered] at hv
  exact hu v (List.mem_of_mem_filter hv)

theorem narrow (hu : u.OfDeclarations) {p : Predicate} (h : u.narrow p = .ok w) :
    w.OfDeclarations := by
  obtain rfl | rfl | ⟨keep, rfl⟩ := narrow_cases h
  · exact hu
  · exact nofun
  · exact hu.filtered keep

theorem select (hu : u.OfDeclarations) (fields : List Value) : (u.select fields).OfDeclarations := by
  unfold SchemaUnion.select
  split
  · exact hu
  · split
    · rename_i names _
      cases u with
      | generic => exact nofun
      | candidates variants filteredFrom =>
        refine collect nofun fun v hv => ?_
        obtain ⟨former, hformer, rfl⟩ := List.mem_map.1 hv
        exact (hu former (mem_ordered.1 hformer)).restrictedTo names
    · exact nofun

theorem project (hu : u.OfDeclarations) {fields : Value} (h : u.project fields = .ok w) :
    w.OfDeclarations := by
  unfold SchemaUnion.project at h
  split at h
  · obtain rfl := Except.ok.inj h
    exact hu
  · split at h
    · obtain rfl := Except.ok.inj h
      exact hu.select _
    · cases h

/-- A path resolves to declared schemas. -/
theorem unionAt {g : Graph} {keys : ReservedKeys} {t : SchemaTree}
    (h : SchemaTree.ofGraph g keys = .ok t) (path : Path) : (t.unionAt path).OfDeclarations := by
  have hplaces (places : List (Located DocumentRef)) :
      (t.unionOfDocuments places).OfDeclarations := by
    refine ofPairs fun pair hpair => ?_
    obtain ⟨place, _, rfl⟩ := List.mem_map.1 hpair
    exact SchemaTree.declared_document h place.node
  unfold SchemaTree.unionAt
  split
  · exact hplaces _
  · exact hplaces _

end OfDeclarations

end SchemaUnion

namespace FieldType

/-- A type with alternatives that is below another overlaps it, unless the other is a union. -/
theorem overlaps_of_isSubtype {t other : FieldType} (ht : t.members ≠ [])
    (hother : other.isUnion = false) (h : isSubtype t other = true) : overlaps t other = true := by
  obtain ⟨l, hl⟩ := List.exists_mem_of_ne_nil t.members ht
  have hself : other ∈ other.members := by
    rw [members_of_isUnion_eq_false hother]
    exact List.mem_singleton_self other
  exact overlaps_iff.2 ⟨l, hl, other, hself, .inl (isSubtype_iff_members.1 h l hl)⟩

end FieldType

namespace SchemaUnion

/--
Of declared schemas those that have a field are kept by the filter on equality with a value or by the
one on inequality, unless the value is a type itself. A value without a finite type can be compared
in neither way.
-/
theorem equal_or_notEqual {u : SchemaUnion} (hu : u.OfDeclarations) {field : String}
    (hfield : u.Declares (.text field)) {x : Value} (hx : ∀ t, x ≠ .fieldType t) :
    (x.isEndless = false → ∃ same other, u.compare field .equal x = .ok same ∧
      u.compare field .notEqual x = .ok other ∧
      ∀ variant, variant ∈ same.variants ∨ variant ∈ other.variants ↔
        variant ∈ u.variants ∧ variant.schema.hasField field = true) ∧
    (x.isEndless = true → u.compare field .equal x = .error .endlessValue ∧
      u.compare field .notEqual x = .error .endlessValue) := by
  refine ⟨fun hfinite => ?_, fun hendless => ?_⟩
  · have hequal : Comparison.isFinite .equal x = true := congrArg not hfinite
    have hnotEqual : Comparison.isFinite .notEqual x = true := congrArg not hfinite
    have hsame := compare_of_declares hfield hequal
    have hother := compare_of_declares hfield hnotEqual
    refine ⟨_, _, hsame, hother, fun variant => ?_⟩
    rw [← keeps_iff_mem hsame, ← keeps_iff_mem hother, keeps_iff_of_declares hfield hequal rfl,
      keeps_iff_of_declares hfield hnotEqual rfl, ← and_or_left, Schema.hasField,
      Option.isSome_iff_exists]
    refine and_congr_right fun hvariant => ⟨?_, ?_⟩
    · rintro (⟨t, ht, _⟩ | ⟨t, ht, _⟩)
      · exact ⟨t, ht⟩
      · exact ⟨t, ht⟩
    · rintro ⟨t, ht⟩
      have hmembers := (hu variant hvariant).members_ne_nil ht
      cases hsub : t.isSubtype x.typeOf with
      | true =>
        have hplain := x.isUnion_typeOf hx
        exact .inl ⟨t, ht, FieldType.overlaps_of_isSubtype hmembers hplain hsub⟩
      | false => exact .inr ⟨t, ht, congrArg not hsub⟩
  · exact ⟨compare_of_not_finite (congrArg not hendless),
      compare_of_not_finite (congrArg not hendless)⟩

/-- A text that may be missing can be the letter and can be another; the letter is only itself. -/
theorem equal_or_notEqual_letter :
    let optional : Variant := ⟨⟨[("name", .union [.primitive .string, .primitive .null])]⟩, ["a/1"]⟩
    let letter : Variant := ⟨⟨[("name", .text "x")]⟩, ["b/1"]⟩
    let unnamed : Variant := ⟨⟨[("size", .primitive .number)]⟩, ["c/1"]⟩
    let u := candidates [optional, letter, unnamed] none
    u.OfDeclarations ∧ u.Declares (.text "name") ∧
      ∃ same other, u.compare "name" .equal (.text "x") = .ok same ∧
        u.compare "name" .notEqual (.text "x") = .ok other ∧
        (optional ∈ same.variants ∨ optional ∈ other.variants) ∧
        (letter ∈ same.variants ∨ letter ∈ other.variants) ∧
        unnamed ∉ same.variants ∧ unnamed ∉ other.variants := by
  intro optional letter unnamed u
  have hoptional : Value.declaredType (.text "string | null") =
      .ok (.union [.primitive .string, .primitive .null]) := by
    have hunion : FieldType.unionOf [.primitive .string, .primitive .null] =
        .union [.primitive .string, .primitive .null] :=
      FieldType.unionOf_eq_self (by decide) (by decide) (by decide) (by decide +kernel)
    exact Value.declaredType_of_tokens (u := .either (.mk (.word (.primitive .string)) 0)
      (.single (.mk (.word (.primitive .null)) 0))) (by decide +kernel) hunion
  have hletter : Value.declaredType (.text "'x'") = .ok (.text "x") :=
    Value.declaredType_of_tokens (u := .single (.mk (.quoted ['\x27', 'x', '\x27']) 0))
      (by decide +kernel) rfl
  have hsize : Value.declaredType (.text "number") = .ok (.primitive .number) :=
    Value.declaredType_of_tokens (u := .single (.mk (.word (.primitive .number)) 0))
      (by decide +kernel) rfl
  have hu : u.OfDeclarations := by
    intro v hv field hfield
    simp only [u, variants, List.mem_cons, List.not_mem_nil, or_false] at hv
    rcases hv with rfl | rfl | rfl
    · obtain rfl := List.mem_singleton.1 hfield
      exact ⟨_, hoptional⟩
    · obtain rfl := List.mem_singleton.1 hfield
      exact ⟨_, hletter⟩
    · obtain rfl := List.mem_singleton.1 hfield
      exact ⟨_, hsize⟩
  have hfield : u.Declares (.text "name") :=
    ⟨"name", rfl, optional.schema, List.mem_cons_self, rfl⟩
  have hplain : ∀ t, Value.text "x" ≠ .fieldType t := fun _ => Value.noConfusion
  obtain ⟨hfinite, -⟩ := equal_or_notEqual hu hfield hplain
  obtain ⟨same, other, hsame, hother, hcovered⟩ := hfinite rfl
  refine ⟨hu, hfield, same, other, hsame, hother, (hcovered optional).2 ⟨?_, rfl⟩,
    (hcovered letter).2 ⟨?_, rfl⟩, fun h => ?_, fun h => ?_⟩
  · exact List.mem_cons_self
  · exact List.mem_cons_of_mem _ List.mem_cons_self
  · cases ((hcovered unnamed).1 (.inl h)).2
  · cases ((hcovered unnamed).1 (.inr h)).2

end SchemaUnion
end SchemaAtlas
