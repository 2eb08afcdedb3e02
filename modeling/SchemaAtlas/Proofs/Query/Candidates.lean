import SchemaAtlas.Proofs.FieldType.Normal
import SchemaAtlas.Proofs.Query.Kept

/-!
# Filters on several candidates

A membership filter asks for each of its candidates what another operator asks for its only value,
and keeps what one of them keeps. The candidates may also be given as the array of the union of their
types. Forming that union drops repeated members and may leave `any` alone, and the filter keeps the
same, unless a candidate is a type with a union among its alternatives.
-/
namespace SchemaAtlas

namespace FieldType

theorem overlaps_any_iff {t : FieldType} : overlaps t any = true ↔ t.members ≠ [] := by
  rw [overlaps_iff]
  constructor
  · intro h
    obtain ⟨l, hl, _⟩ := h
    exact List.ne_nil_of_mem hl
  · intro h
    obtain ⟨l, hl⟩ := List.exists_mem_of_ne_nil t.members h
    exact ⟨l, hl, any, List.mem_singleton_self any, .inl (isSubtype_any_right l)⟩

theorem members_ne_nil_of_overlaps {t other : FieldType} (h : overlaps t other = true) :
    t.members ≠ [] := by
  obtain ⟨l, hl, _⟩ := overlaps_iff.1 h
  exact List.ne_nil_of_mem hl

/-- A type overlaps another if it overlaps one of its alternatives, unless these are unions. -/
theorem overlaps_iff_members {t other : FieldType} (h : ∀ m ∈ other.members, m.isUnion = false) :
    overlaps t other = true ↔ ∃ m ∈ other.members, overlaps t m = true := by
  rw [overlaps_iff]
  constructor
  · intro hoverlaps
    obtain ⟨l, hl, r, hr, hlr⟩ := hoverlaps
    have hself : r ∈ r.members := by
      rw [members_of_isUnion_eq_false (h r hr)]
      exact List.mem_singleton_self r
    exact ⟨r, hr, overlaps_iff.2 ⟨l, hl, r, hself, hlr⟩⟩
  · intro hmember
    obtain ⟨m, hm, hoverlaps⟩ := hmember
    obtain ⟨l, hl, r, hr, hlr⟩ := overlaps_iff.1 hoverlaps
    rw [members_of_isUnion_eq_false (h m hm)] at hr
    obtain rfl := List.mem_singleton.1 hr
    exact ⟨l, hl, r, hm, hlr⟩

/-- A type overlaps an alternative of a union exactly if it overlaps one of the types in it. -/
theorem any_overlaps_members_unionOf {types : List FieldType}
    (h : ∀ type ∈ types, ∀ m ∈ type.members, m.isUnion = false) (t : FieldType) :
    (unionOf types).members.any (overlaps t) = types.any (overlaps t) := by
  rw [Bool.eq_iff_iff, List.any_eq_true, List.any_eq_true]
  cases hany : types.any isAny with
  | true =>
    -- one of the types is `any`, which is all that is left of the union
    rw [unionOf_of_any hany]
    obtain ⟨type, htype, hisAny⟩ := List.any_eq_true.1 hany
    obtain rfl := isAny_iff.1 hisAny
    constructor
    · intro hmember
      obtain ⟨m, hm, hoverlaps⟩ := hmember
      obtain rfl := List.mem_singleton.1 hm
      exact ⟨any, htype, hoverlaps⟩
    · intro htypes
      obtain ⟨other, _, hoverlaps⟩ := htypes
      have hne := members_ne_nil_of_overlaps hoverlaps
      exact ⟨any, List.mem_singleton_self any, overlaps_any_iff.2 hne⟩
  | false =>
    have hplain : ∀ m ∈ distinctBy same (types.flatMap members), m.isUnion = false := by
      intro m hm
      obtain ⟨type, htype, hm⟩ := exists_of_mem_distinct_members hm
      exact h type htype m hm
    have hsame := sameMembers_distinctBy (types.flatMap members)
    rw [unionOf_of_not_any hany, members_ofMembers hplain]
    constructor
    · intro hmember
      obtain ⟨m, hm, hoverlaps⟩ := hmember
      obtain ⟨type, htype, hm⟩ := exists_of_mem_distinct_members hm
      exact ⟨type, htype, (overlaps_iff_members (h type htype)).2 ⟨m, hm, hoverlaps⟩⟩
    · intro htypes
      obtain ⟨type, htype, hoverlaps⟩ := htypes
      obtain ⟨m, hm, hoverlaps⟩ := (overlaps_iff_members (h type htype)).1 hoverlaps
      have hmem : m ∈ types.flatMap members := List.mem_flatMap.2 ⟨type, htype, hm⟩
      obtain ⟨kept, hkept, hmk⟩ := hsame.2 m hmem
      refine ⟨kept, hkept, ?_⟩
      rwa [overlaps_congr t.same_refl hmk]

end FieldType

namespace Value

theorem anyEndless_eq_false {vs : List Value} (h : ∀ v ∈ vs, v.isEndless = false) :
    anyEndless vs = false := by
  induction vs with
  | nil => rfl
  | cons v vs ih =>
    have hrest := ih fun other hother => h other (List.mem_cons_of_mem v hother)
    rw [anyEndless, h v List.mem_cons_self, hrest, Bool.and_false, Bool.or_false]

theorem typesOf_eq_map (vs : List Value) : typesOf vs = vs.map typeOf := by
  induction vs with
  | nil => rfl
  | cons v vs ih => rw [typesOf, ih, List.map_cons]

/-- A sequence of values with types has the array of the union of these types. -/
theorem typeOf?_sequence {vs : List Value} (h : ∀ v ∈ vs, v.isEndless = false)
    (kind : SequenceKind) :
    (sequence kind vs).typeOf? = some (.array (.unionOf (vs.map typeOf))) := by
  have hfinite : (sequence kind vs).isEndless = false := anyEndless_eq_false h
  rw [typeOf?, hfinite, typeOf, typesOf_eq_map]
  rfl

theorem isUnion_of_mem_members_typeOf {v : Value} {m : FieldType}
    (h : ∀ t, v = .fieldType t → ∀ m ∈ t.members, m.isUnion = false)
    (hm : m ∈ v.typeOf.members) : m.isUnion = false := by
  by_cases hobject : ∃ t, v = .fieldType t
  · obtain ⟨t, rfl⟩ := hobject
    exact h t rfl m hm
  · have hplain := isUnion_typeOf v fun t ht => hobject ⟨t, ht⟩
    obtain rfl := FieldType.mem_members_of_isUnion_eq_false hplain hm
    exact hplain

end Value

theorem any_any_comm {α β : Type} (as : List α) (bs : List β) (p : α → β → Bool) :
    (as.any fun a => bs.any fun b => p a b) = bs.any fun b => as.any fun a => p a b := by
  rw [Bool.eq_iff_iff]
  simp only [List.any_eq_true]
  constructor
  · rintro ⟨a, ha, b, hb, h⟩
    exact ⟨b, hb, a, ha, h⟩
  · rintro ⟨b, hb, a, ha, h⟩
    exact ⟨a, ha, b, hb, h⟩

namespace Operator

/-- The first operator compares with several candidates, the second with one of them. -/
inductive Gathers : Operator → Operator → Prop
  | isIn : Gathers .isIn .equal
  | arrayContainsAny : Gathers .arrayContainsAny .arrayContains

/-- What is asked of a field is the same for each candidate and for an only value. -/
structure Tests (many one : Operator) (test : FieldType → FieldType → Bool) : Prop where
  single (type : FieldType) : one.admits (.single type) = .ok fun t => test t type
  candidates (comparison : Comparison) :
    many.admits comparison = .ok fun t => comparison.candidateTypes.any (test t)
  /-- Candidates may be put together to a union. -/
  unionOf {types : List FieldType} (h : ∀ type ∈ types, ∀ m ∈ type.members, m.isUnion = false)
    (t : FieldType) : (FieldType.unionOf types).members.any (test t) = types.any (test t)

namespace Gathers

variable {many one : Operator} (h : Gathers many one)

include h

theorem exists_tests : ∃ test, Tests many one test := by
  cases h with
  | isIn =>
    refine ⟨FieldType.overlaps, fun _ => rfl, fun _ => rfl, fun htypes t => ?_⟩
    exact FieldType.any_overlaps_members_unionOf htypes t
  | arrayContainsAny =>
    refine ⟨fun t type => t.arrayElements.any fun element => element.overlaps type,
      fun _ => rfl, fun comparison => ?_, fun {types} htypes t => ?_⟩
    · rw [admits]
      congr 1
      funext t
      exact any_any_comm _ _ _
    · -- each element of the arrays is compared with the candidates on its own
      have helement := FieldType.any_overlaps_members_unionOf htypes
      rw [any_any_comm (FieldType.unionOf types).members, any_any_comm types, funext helement]

theorem isFinite_single (v : Value) : Comparison.isFinite one v = !v.isEndless := by
  cases h <;> rfl

theorem isFinite_candidates (kind : SequenceKind) (vs : List Value) :
    Comparison.isFinite many (.sequence kind vs) = !vs.any Value.isEndless := by
  cases h <;> rfl

theorem ofValue_single (v : Value) : Comparison.ofValue one v = .single v.typeOf := by
  cases h <;> rfl

theorem ofValue_candidates (kind : SequenceKind) (vs : List Value) :
    Comparison.ofValue many (.sequence kind vs) = .candidates (vs.map Value.typeOf) := by
  cases h <;> rfl

end Gathers
end Operator

namespace SchemaUnion

open Operator (Gathers Tests)

variable {u : SchemaUnion} {field : String}

/-- A comparison may be put in place of another that asks the same of every field. -/
theorem filterBy_eq_compare {operator : Operator} {value : Value} {comparison : Comparison}
    (hfinite : Comparison.isFinite operator value = true)
    (hadmits : operator.admits comparison =
      operator.admits (Comparison.ofValue operator value)) :
    u.filterBy (.text field) operator comparison = u.compare field operator value := by
  have hp : Predicate.ofValue (.text field) operator value =
      .ok ⟨.text field, operator, Comparison.ofValue operator value⟩ := if_pos hfinite
  rw [compare, hp]
  show _ = u.filterBy (.text field) operator (Comparison.ofValue operator value)
  rw [filterBy, filterBy, hadmits]

section Gathers

variable {many one : Operator} (hoperators : Gathers many one) {vs : List Value}
  (hvs : ∀ v ∈ vs, v.isEndless = false) (kind : SequenceKind)

include hoperators hvs

theorem isFinite_candidates : Comparison.isFinite many (.sequence kind vs) = true := by
  rw [hoperators.isFinite_candidates]
  exact Value.not_any_isEndless hvs

/-- What several candidates keep is what one of them keeps on its own. -/
theorem keeps_candidates_iff (hfield : u.Declares (.text field)) {variant : Variant} :
    u.Keeps field many (.sequence kind vs) variant ↔ ∃ v ∈ vs, u.Keeps field one v variant := by
  obtain ⟨test, htest⟩ := hoperators.exists_tests
  have hmany : many.admits (Comparison.ofValue many (.sequence kind vs)) =
      .ok fun t => (vs.map Value.typeOf).any (test t) := by
    rw [hoperators.ofValue_candidates, htest.candidates]
    rfl
  have hone : ∀ v ∈ vs, (u.Keeps field one v variant ↔ variant ∈ u.variants ∧
      ∃ t, variant.schema.fieldAt? field = some t ∧ test t v.typeOf = true) := by
    intro v hv
    have hfinite : Comparison.isFinite one v = true := by
      rw [hoperators.isFinite_single, hvs v hv]
      rfl
    have htype : one.admits (Comparison.ofValue one v) = .ok fun t => test t v.typeOf := by
      rw [hoperators.ofValue_single, htest.single]
    exact keeps_iff_of_declares hfield hfinite htype
  rw [keeps_iff_of_declares hfield (isFinite_candidates hoperators hvs kind) hmany]
  simp only [List.any_map, List.any_eq_true, Function.comp_apply]
  constructor
  · rintro ⟨hvariant, t, ht, v, hv, hpasses⟩
    exact ⟨v, hv, (hone v hv).2 ⟨hvariant, t, ht, hpasses⟩⟩
  · rintro ⟨v, hv, hkeeps⟩
    obtain ⟨hvariant, t, ht, hpasses⟩ := (hone v hv).1 hkeeps
    exact ⟨hvariant, t, ht, v, hv, hpasses⟩

/-- The array of the candidates' types is asked for what the candidates are asked for. -/
theorem filterBy_array_eq_compare
    (hplain : ∀ v ∈ vs, ∀ m ∈ v.typeOf.members, m.isUnion = false) :
    u.filterBy (.text field) many (.single (.array (.unionOf (vs.map Value.typeOf)))) =
      u.compare field many (.sequence kind vs) := by
  obtain ⟨test, htest⟩ := hoperators.exists_tests
  refine filterBy_eq_compare (isFinite_candidates hoperators hvs kind) ?_
  have hunion : ∀ t, (FieldType.unionOf (vs.map Value.typeOf)).members.any (test t) =
      (vs.map Value.typeOf).any (test t) := by
    refine htest.unionOf fun type htype => ?_
    obtain ⟨v, hv, rfl⟩ := List.mem_map.1 htype
    exact hplain v hv
  rw [hoperators.ofValue_candidates, htest.candidates, htest.candidates]
  exact congrArg Except.ok (funext hunion)

end Gathers

/--
Where candidates are compared with a declared field, the variants are kept that one of the candidates
keeps on its own, and the array type of the candidates in their place gives the same union. One value
without a finite type makes the comparison fail, as it does on its own.
-/
theorem compare_candidates (hfield : u.Declares (.text field)) {many one : Operator}
    (hoperators : Gathers many one) (kind : SequenceKind) (vs : List Value) :
    ((∀ v ∈ vs, v.isEndless = false) →
      ∃ r, u.compare field many (.sequence kind vs) = .ok r ∧
        (∀ variant, variant ∈ r.variants ↔ ∃ v ∈ vs, u.Keeps field one v variant) ∧
        ((∀ t, .fieldType t ∈ vs → ∀ m ∈ t.members, m.isUnion = false) →
          ∃ type, (Value.sequence kind vs).typeOf? = some type ∧
            u.filterBy (.text field) many (.single type) = .ok r)) ∧
    ((∃ v ∈ vs, v.isEndless = true) →
      u.compare field many (.sequence kind vs) = .error .endlessValue ∧
        ∃ v ∈ vs, u.compare field one v = .error .endlessValue) := by
  refine ⟨fun hvs => ?_, fun hendless => ?_⟩
  · have hcompare := compare_of_declares hfield (isFinite_candidates hoperators hvs kind)
    refine ⟨_, hcompare, fun variant => ?_, fun hobjects => ?_⟩
    · rw [← keeps_iff_mem hcompare]
      exact keeps_candidates_iff hoperators hvs kind hfield
    · refine ⟨_, Value.typeOf?_sequence hvs kind, ?_⟩
      have hplain : ∀ v ∈ vs, ∀ m ∈ v.typeOf.members, m.isUnion = false := fun v hv m hm =>
        Value.isUnion_of_mem_members_typeOf (fun t heq => hobjects t (heq ▸ hv)) hm
      rw [filterBy_array_eq_compare hoperators hvs kind hplain, hcompare]
  · obtain ⟨v, hv, hend⟩ := hendless
    have hany : vs.any Value.isEndless = true := List.any_eq_true.2 ⟨v, hv, hend⟩
    refine ⟨compare_of_not_finite ?_, v, hv, compare_of_not_finite ?_⟩
    · rw [hoperators.isFinite_candidates, hany]
      rfl
    · rw [hoperators.isFinite_single, hend]
      rfl

/--
A row that holds something of unknown type may be any list, and nothing is what may be missing; a
number is neither.
-/
theorem compare_candidates_tags :
    let tags : Variant := ⟨⟨[("tags", .array (.primitive .string))]⟩, ["posts/1"]⟩
    let flag : Variant := ⟨⟨[("tags", .union [.primitive .null, .primitive .boolean])]⟩, ["notes/1"]⟩
    let score : Variant := ⟨⟨[("tags", .primitive .number)]⟩, ["scores/1"]⟩
    let u := candidates [tags, flag, score] none
    let row : Value := .sequence .tuple [.text "a", .sealed]
    u.Declares (.text "tags") ∧ (∀ v ∈ [row, .null], v.isEndless = false) ∧
      ∃ r, u.compare "tags" .isIn (.sequence .list [row, .null]) = .ok r ∧
        tags ∈ r.variants ∧ flag ∈ r.variants ∧ score ∉ r.variants ∧
        u.filterBy (.text "tags") .isIn
          (.single (.array (.union [.array .any, .primitive .null]))) = .ok r := by
  intro tags flag score u row
  have hfield : u.Declares (.text "tags") := ⟨"tags", rfl, tags.schema, List.mem_cons_self, rfl⟩
  have hvalues : ∀ v ∈ [row, .null], v.isEndless = false :=
    List.forall_mem_cons.2 ⟨rfl, List.forall_mem_singleton.2 rfl⟩
  obtain ⟨hfinite, -⟩ := compare_candidates hfield .isIn .list [row, .null]
  obtain ⟨r, hr, hkept, harray⟩ := hfinite hvalues
  have hequal : ∀ v ∈ [row, .null], ∀ variant, (u.Keeps "tags" .equal v variant ↔
      variant ∈ u.variants ∧ ∃ t, variant.schema.fieldAt? "tags" = some t ∧
        FieldType.overlaps t v.typeOf = true) := by
    intro v hv variant
    have hfinite : Comparison.isFinite .equal v = true := congrArg not (hvalues v hv)
    exact keeps_iff_of_declares hfield hfinite rfl
  have hrow : row.typeOf = .array .any := rfl
  have hboth : FieldType.unionOf [.array .any, .primitive .null] =
      .union [.array .any, .primitive .null] := by
    simp [FieldType.unionOf, FieldType.isAny, FieldType.members, distinctBy, addDistinct,
      FieldType.same, FieldType.ofMembers]
  have hlist : FieldType.overlaps (.array (.primitive .string)) row.typeOf = true := by
    simp [hrow, FieldType.overlaps, FieldType.members, FieldType.isSubtype]
  have hnull : FieldType.overlaps (.union [.primitive .null, .primitive .boolean])
      (Value.typeOf .null) = true := by
    simp [Value.typeOf, FieldType.overlaps, FieldType.members, FieldType.isSubtype]
  refine ⟨hfield, hvalues, r, hr, (hkept tags).2 ⟨row, by simp, ?_⟩,
    (hkept flag).2 ⟨.null, by simp, ?_⟩, fun hscore => ?_, ?_⟩
  · exact (hequal row (by simp) tags).2 ⟨by simp [u, variants], _, rfl, hlist⟩
  · exact (hequal .null (by simp) flag).2 ⟨by simp [u, variants], _, rfl, hnull⟩
  · obtain ⟨v, hv, hkeeps⟩ := (hkept score).1 hscore
    obtain ⟨-, t, ht, hoverlaps⟩ := (hequal v hv score).1 hkeeps
    obtain rfl := Option.some.inj ht
    rcases List.mem_pair.1 hv with rfl | rfl
    · simp [hrow, FieldType.overlaps, FieldType.members, FieldType.isSubtype] at hoverlaps
    · simp [Value.typeOf, FieldType.overlaps, FieldType.members, FieldType.isSubtype] at hoverlaps
  · obtain ⟨type, htype, hfilter⟩ := harray fun t ht => by simp [row] at ht
    obtain rfl := Option.some.inj htype
    rwa [Value.typeOf, Value.typesOf_eq_map, List.map_cons, List.map_singleton, hrow,
      Value.typeOf, hboth] at hfilter

/--
A union inside a union is an alternative among candidates and none in the array of their types. One
value that holds itself is enough to keep several from being compared with.
-/
theorem not_compare_candidates :
    let games : Variant := ⟨⟨[("score", .primitive .number)]⟩, ["games/1"]⟩
    let u := candidates [games] none
    let bare : Value := .fieldType (.union [.union []])
    let ring : Value := .mapping [(.text "next", .enclosingMapping 1)]
    u.Reachable ∧ u.Declares (.text "score") ∧
      u.Keeps "score" .isIn (.sequence .list [bare]) games ∧
      (∃ type r, (Value.sequence .list [bare]).typeOf? = some type ∧
        u.filterBy (.text "score") .isIn (.single type) = .ok r ∧ games ∉ r.variants) ∧
      u.Keeps "score" .equal (.integer 1) games ∧
      u.compare "score" .isIn (.sequence .list [.integer 1, ring]) = .error .endlessValue := by
  intro games u bare ring
  have hu : u.Reachable := .ofPairs [(games.schema, "games/1")]
  have hgames : games ∈ u.variants := List.mem_cons_self
  have hscore : games.schema.fieldAt? "score" = some (.primitive .number) := rfl
  have hfield : u.Declares (.text "score") := ⟨"score", rfl, games.schema, List.mem_cons_self, rfl⟩
  have hfinite : ∀ v ∈ [bare], v.isEndless = false := List.forall_mem_singleton.2 rfl
  have hnever : FieldType.isSubtype (.union []) (.primitive .number) = true :=
    FieldType.isSubtype_union_left.2 nofun
  have hone : FieldType.isSubtype (.literal (.number (.integer 1))) (.primitive .number) = true := by
    simp [FieldType.isSubtype, Literal.base]
  have hunion : FieldType.unionOf [.union [.union []]] = .union [] := by
    simp [FieldType.unionOf, FieldType.isAny, FieldType.members, distinctBy, addDistinct,
      FieldType.ofMembers]
  have htype : (Value.sequence .list [bare]).typeOf? = some (.array (.union [])) :=
    (Value.typeOf?_sequence hfinite .list).trans (congrArg (some ∘ FieldType.array) hunion)
  refine ⟨hu, hfield, ?_, ⟨_, _, htype, rfl, fun h => ?_⟩, ?_, compare_of_not_finite rfl⟩
  · refine (keeps_isIn_iff hu hgames hscore hfinite .list).2
      ⟨bare, List.mem_singleton.2 rfl, FieldType.overlaps_iff.2 ?_⟩
    exact ⟨_, List.mem_singleton.2 rfl, .union [], List.mem_singleton.2 rfl, .inr hnever⟩
  · -- the array of no alternatives asks for nothing that a number could be
    rw [variants_filtered, List.mem_filter] at h
    cases h.2
  · refine (keeps_iff_overlaps hu hgames hscore rfl (.inl rfl)).2 (FieldType.overlaps_iff.2 ?_)
    exact ⟨_, List.mem_singleton.2 rfl, _, List.mem_singleton.2 rfl, .inr hone⟩

end SchemaUnion
end SchemaAtlas
