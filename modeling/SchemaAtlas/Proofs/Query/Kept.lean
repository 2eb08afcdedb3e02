import SchemaAtlas.Proofs.FieldType.Flat
import SchemaAtlas.Proofs.Query.Reachable
import SchemaAtlas.Proofs.Tree.Schemas
import SchemaAtlas.Proofs.Value.Admitted

/-!
# What filters on values keep

Filters compare types, and queries mean values. Here the two are brought together for a variant of a
reachable union whose schema has the compared field at a type `t`: each operator keeps the variant if
its test holds between `t` and the inferred type of the value. Equality and membership filters keep
every variant that a matching document could be of, and on leaf values no other, where the unions in
`t` are flat, as those of declared types are.
-/
namespace SchemaAtlas

namespace FieldType

/-- The type admits a sequence that holds the value. -/
def AdmitsHolding (t : FieldType) (x : Value) : Prop :=
  ∃ kind items, x ∈ items ∧ t.Admits (.sequence kind items)

theorem admitsHolding_array_iff {e : FieldType} {x : Value} :
    (array e).AdmitsHolding x ↔ e.Admits x := by
  constructor
  · intro h
    obtain ⟨kind, items, hx, h⟩ := h
    obtain ⟨_, _, heq, hitems⟩ := admits_array_iff.1 h
    obtain ⟨-, rfl⟩ := Value.sequence.inj heq
    exact hitems x hx
  · intro h
    refine ⟨.list, [x], List.mem_singleton.2 rfl, admits_array_iff.2 ⟨_, _, rfl, ?_⟩⟩
    exact List.forall_mem_singleton.2 h

/-- What the sequences of a flat type may hold is what the elements of its arrays admit. -/
theorem admitsHolding_iff {t : FieldType} (ht : t.Flat) {x : Value} :
    t.AdmitsHolding x ↔ ∃ e ∈ t.arrayElements, Admits e x := by
  cases hany : t.isAny with
  | true =>
    obtain rfl := isAny_iff.1 hany
    refine ⟨fun _ => ⟨any, List.mem_singleton.2 rfl, trivial⟩, fun _ => ?_⟩
    exact ⟨.list, [x], List.mem_singleton.2 rfl, trivial⟩
  | false =>
    constructor
    · intro h
      obtain ⟨kind, items, hx, h⟩ := h
      obtain ⟨m, hm, h⟩ := admits_iff_members.1 h
      -- of the types that can be members, only arrays admit sequences
      cases m with
      | array e =>
        have hitem := admitsHolding_array_iff.1 ⟨kind, items, hx, h⟩
        exact ⟨e, (mem_arrayElements_iff hany).2 hm, hitem⟩
      | any => cases ht.isAny_of_mem_members hany hm
      | union members => cases ht.isUnion_of_mem_members hm
      | literal l => cases l <;> cases h
      | primitive _ | map _ => cases h
    · intro h
      obtain ⟨e, he, h⟩ := h
      obtain ⟨kind, items, hx, h⟩ := admitsHolding_array_iff.2 h
      exact ⟨kind, items, hx, admits_iff_members.2 ⟨_, (mem_arrayElements_iff hany).1 he, h⟩⟩

theorem Flat.of_mem_arrayElements {t e : FieldType} (ht : t.Flat) (he : e ∈ t.arrayElements) :
    e.Flat := by
  cases hany : t.isAny with
  | true =>
    obtain rfl := isAny_iff.1 hany
    obtain rfl := List.mem_singleton.1 he
    exact .any
  | false =>
    cases ht.of_mem_members ((mem_arrayElements_iff hany).1 he) with
    | array h => exact h

end FieldType

namespace Value

open FieldType (overlaps)

variable {x : Value} {t : FieldType}

theorem Plain.overlaps_of_admitsHolding (hx : x.Plain) (ht : t.Flat) (h : t.AdmitsHolding x) :
    ∃ e ∈ t.arrayElements, overlaps e x.typeOf = true := by
  obtain ⟨e, he, h⟩ := (FieldType.admitsHolding_iff ht).1 h
  exact ⟨e, he, hx.overlaps_typeOf h⟩

theorem IsLeaf.overlaps_typeOf_iff (hleaf : x.IsLeaf) (hx : x.Plain) (ht : t.Flat) :
    overlaps t x.typeOf = true ↔ t.Admits x :=
  ⟨hleaf.admits_of_overlaps fun _ hm => ht.isUnion_of_mem_members hm, hx.overlaps_typeOf⟩

theorem IsLeaf.overlaps_arrayElements_iff (hleaf : x.IsLeaf) (hx : x.Plain) (ht : t.Flat) :
    (∃ e ∈ t.arrayElements, overlaps e x.typeOf = true) ↔ t.AdmitsHolding x := by
  rw [FieldType.admitsHolding_iff ht]
  exact exists_congr fun e => and_congr_right fun he =>
    hleaf.overlaps_typeOf_iff hx (ht.of_mem_arrayElements he)

theorem not_any_isEndless {items : List Value} (h : ∀ item ∈ items, item.isEndless = false) :
    (!items.any Value.isEndless) = true := by
  rw [Bool.not_eq_true', List.any_eq_false]
  exact fun item hitem => Bool.not_eq_true _ ▸ h item hitem

/-- Comparisons with plain values can be made into predicates. -/
theorem Plain.isFinite (hx : x.Plain) (operator : Operator) :
    Comparison.isFinite operator x = true := by
  have hitems : ∀ items, x.items? = some items → (!items.any Value.isEndless) = true := by
    intro items h
    cases hx with
    | sequence hplain =>
      obtain rfl := Option.some.inj h
      exact not_any_isEndless fun item hitem => (hplain item hitem).isEndless
    | _ => cases h
  unfold Comparison.isFinite
  split
  · rfl
  · split
    · split
      · rename_i items h
        exact hitems items h
      · exact congrArg not hx.isEndless
    · exact congrArg not hx.isEndless

end Value

namespace SchemaUnion

/-- The answer of a query that compares a field with a value. -/
def compare (u : SchemaUnion) (field : String) (operator : Operator) (value : Value) :
    Except QueryError SchemaUnion := do
  u.narrow (← Predicate.ofValue (.text field) operator value)

/-- The variant is among those that the comparison leaves. -/
def Keeps (u : SchemaUnion) (field : String) (operator : Operator) (value : Value)
    (variant : Variant) : Prop :=
  ∃ r, u.compare field operator value = .ok r ∧ variant ∈ r.variants

theorem keeps_iff_mem {u r : SchemaUnion} {field : String} {operator : Operator} {value : Value}
    {variant : Variant} (h : u.compare field operator value = .ok r) :
    u.Keeps field operator value variant ↔ variant ∈ r.variants := by
  rw [Keeps, h]
  constructor
  · rintro ⟨other, heq, hvariant⟩
    obtain rfl := Except.ok.inj heq
    exact hvariant
  · exact fun hvariant => ⟨r, rfl, hvariant⟩

theorem passes_iff {admits : FieldType → Bool} {field : String} {s : Schema} :
    passes admits field s = true ↔ ∃ t, s.fieldAt? field = some t ∧ admits t = true := by
  unfold passes
  cases s.fieldAt? field with
  | none => simp
  | some t => simp

theorem compare_of_not_finite {u : SchemaUnion} {field : String} {operator : Operator} {value : Value}
    (h : Comparison.isFinite operator value = false) :
    u.compare field operator value = .error .endlessValue := by
  rw [compare, Predicate.ofValue, h]
  rfl

/-- A declared field is looked up in a union that filters can narrow. -/
theorem Declares.isUnfilterable {u : SchemaUnion} {field : Value} (h : u.Declares field) :
    u.isUnfilterable = false := by
  obtain ⟨_, _, s, hs, _⟩ := h
  rw [← Bool.not_eq_true, isUnfilterable_iff]
  rintro (hgeneric | hnone)
  · cases u with
    | generic => cases hs
    | candidates => cases hgeneric
  · rw [hnone] at hs
    cases hs

section Declared

variable {u : SchemaUnion} {field : String} {operator : Operator} {value : Value}
  (hfield : u.Declares (.text field)) (hfinite : Comparison.isFinite operator value = true)

include hfield hfinite

/-- A comparison of a declared field filters the union by its predicate. -/
theorem compare_of_declares :
    u.compare field operator value = .ok (u.filtered
      (Predicate.passedBy ⟨.text field, operator, Comparison.ofValue operator value⟩)) := by
  have hp : Predicate.ofValue (.text field) operator value =
      .ok ⟨.text field, operator, Comparison.ofValue operator value⟩ := if_pos hfinite
  rw [compare, hp]
  exact narrow_of_declares hfield.isUnfilterable (Predicate.OfValue.evaluable ⟨_, _, _, hp⟩) hfield

/-- It keeps the variants that have the field at a type which passes the test of the operator. -/
theorem keeps_iff_of_declares {admits : FieldType → Bool}
    (hadmits : operator.admits (Comparison.ofValue operator value) = .ok admits)
    {variant : Variant} :
    u.Keeps field operator value variant ↔ variant ∈ u.variants ∧
      ∃ t, variant.schema.fieldAt? field = some t ∧ admits t = true := by
  have heq : Predicate.admits ⟨.text field, operator, Comparison.ofValue operator value⟩ =
      admits := by
    funext t
    rw [Predicate.admits, hadmits]
  rw [keeps_iff_mem (compare_of_declares hfield hfinite), variants_filtered, List.mem_filter,
    Predicate.passedBy, heq, passes_iff]

end Declared

section Operators

variable {u : SchemaUnion} {variant : Variant} {field : String} {t : FieldType}
  (hu : u.Reachable) (hvariant : variant ∈ u.variants)
  (ht : variant.schema.fieldAt? field = some t)

include hu hvariant ht

/-- Where a variant has the field, a comparison filters the union by its predicate. -/
theorem compare_eq {operator : Operator} {value : Value}
    (hfinite : Comparison.isFinite operator value = true) :
    u.compare field operator value = .ok (u.filtered
      (Predicate.passedBy ⟨.text field, operator, Comparison.ofValue operator value⟩)) :=
  compare_of_declares (hu.declares hvariant (Option.isSome_iff_exists.2 ⟨t, ht⟩)) hfinite

theorem keeps_iff {operator : Operator} {value : Value} {admits : FieldType → Bool}
    (hfinite : Comparison.isFinite operator value = true)
    (hadmits : operator.admits (Comparison.ofValue operator value) = .ok admits) :
    u.Keeps field operator value variant ↔ admits t = true := by
  have hdeclares := hu.declares hvariant (Option.isSome_iff_exists.2 ⟨t, ht⟩)
  rw [keeps_iff_of_declares hdeclares hfinite hadmits, and_iff_right hvariant, ht]
  simp only [Option.some.injEq, exists_eq_left']

section Single

variable {x : Value} (hx : x.isEndless = false)

include hx

theorem keeps_notEqual_iff :
    u.Keeps field .notEqual x variant ↔ FieldType.isSubtype t x.typeOf = false := by
  have hfinite : Comparison.isFinite .notEqual x = true := congrArg not hx
  rw [keeps_iff hu hvariant ht hfinite rfl, Bool.not_eq_true']

/-- The operators on order do what equality does. -/
theorem keeps_iff_overlaps {operator : Operator}
    (hoperator : operator = .equal ∨ operator.isOrdering = true) :
    u.Keeps field operator x variant ↔ FieldType.overlaps t x.typeOf = true := by
  have htest : Comparison.isFinite operator x = !x.isEndless ∧
      operator.admits (Comparison.ofValue operator x) =
        .ok fun type => FieldType.overlaps type x.typeOf := by
    rcases hoperator with rfl | h
    · exact ⟨rfl, rfl⟩
    · cases operator <;> first | exact ⟨rfl, rfl⟩ | cases h
  rw [keeps_iff hu hvariant ht (htest.1.trans (congrArg not hx)) htest.2]

theorem keeps_arrayContains_iff :
    u.Keeps field .arrayContains x variant ↔
      ∃ e ∈ t.arrayElements, FieldType.overlaps e x.typeOf = true := by
  have hfinite : Comparison.isFinite .arrayContains x = true := congrArg not hx
  rw [keeps_iff hu hvariant ht hfinite rfl, List.any_eq_true]

end Single

section Several

variable {xs : List Value} (hxs : ∀ y ∈ xs, y.isEndless = false) (kind : SequenceKind)

include hxs

theorem keeps_isIn_iff :
    u.Keeps field .isIn (.sequence kind xs) variant ↔
      ∃ y ∈ xs, FieldType.overlaps t y.typeOf = true := by
  have hfinite : Comparison.isFinite .isIn (.sequence kind xs) = true :=
    Value.not_any_isEndless hxs
  rw [keeps_iff hu hvariant ht hfinite rfl]
  exact (Bool.eq_iff_iff.1 List.any_map).trans List.any_eq_true

theorem keeps_arrayContainsAny_iff :
    u.Keeps field .arrayContainsAny (.sequence kind xs) variant ↔
      ∃ y ∈ xs, ∃ e ∈ t.arrayElements, FieldType.overlaps e y.typeOf = true := by
  have hfinite : Comparison.isFinite .arrayContainsAny (.sequence kind xs) = true :=
    Value.not_any_isEndless hxs
  rw [keeps_iff hu hvariant ht hfinite rfl, List.any_eq_true]
  constructor
  · intro h
    obtain ⟨e, he, h⟩ := h
    obtain ⟨type, htype, h⟩ := List.any_eq_true.1 h
    obtain ⟨y, hy, rfl⟩ := List.mem_map.1 htype
    exact ⟨y, hy, e, he, h⟩
  · intro h
    obtain ⟨y, hy, e, he, h⟩ := h
    exact ⟨e, he, List.any_eq_true.2 ⟨_, List.mem_map.2 ⟨y, hy, rfl⟩, h⟩⟩

end Several

end Operators

/--
Equality and membership filters lose no variant of which a matching document could be, and keep no
other if the compared values are leaf values. For what is held in an array, and for keeping no other,
the type has to be flat, which every declared type is.
-/
theorem keeps_of_admits {u : SchemaUnion} (hu : u.Reachable) {variant : Variant}
    (hvariant : variant ∈ u.variants) {field : String} {t : FieldType}
    (ht : variant.schema.fieldAt? field = some t) {x : Value} (hx : x.Plain) {xs : List Value}
    (hxs : ∀ y ∈ xs, y.Plain) (kind : SequenceKind) :
    (∀ operator, (∃ r, u.compare field operator x = .ok r) ∧
      ∃ r, u.compare field operator (.sequence kind xs) = .ok r) ∧
    (t.Admits x → u.Keeps field .equal x variant) ∧
    ((∃ y ∈ xs, t.Admits y) → u.Keeps field .isIn (.sequence kind xs) variant) ∧
    (variant.schema.Declared → t.Flat) ∧
    (t.Flat →
      (t.AdmitsHolding x → u.Keeps field .arrayContains x variant) ∧
      ((∃ y ∈ xs, t.AdmitsHolding y) →
        u.Keeps field .arrayContainsAny (.sequence kind xs) variant) ∧
      (x.IsLeaf → (∀ y ∈ xs, y.IsLeaf) →
        (u.Keeps field .equal x variant ↔ t.Admits x) ∧
        (u.Keeps field .isIn (.sequence kind xs) variant ↔ ∃ y ∈ xs, t.Admits y) ∧
        (u.Keeps field .arrayContains x variant ↔ t.AdmitsHolding x) ∧
        (u.Keeps field .arrayContainsAny (.sequence kind xs) variant ↔
          ∃ y ∈ xs, t.AdmitsHolding y))) := by
  have hendless : ∀ y ∈ xs, y.isEndless = false := fun y hy => (hxs y hy).isEndless
  have hanswer : ∀ {operator value}, Value.Plain value →
      ∃ r, u.compare field operator value = .ok r := fun hvalue =>
    ⟨_, compare_eq hu hvariant ht (hvalue.isFinite _)⟩
  rw [keeps_iff_overlaps hu hvariant ht hx.isEndless (.inl rfl),
    keeps_isIn_iff hu hvariant ht hendless kind,
    keeps_arrayContains_iff hu hvariant ht hx.isEndless,
    keeps_arrayContainsAny_iff hu hvariant ht hendless kind]
  refine ⟨fun operator => ⟨hanswer hx, hanswer (.sequence hxs)⟩, hx.overlaps_typeOf, ?_,
    fun hdeclared => hdeclared.flat ht, ?_⟩
  · intro h
    obtain ⟨y, hy, h⟩ := h
    exact ⟨y, hy, (hxs y hy).overlaps_typeOf h⟩
  · intro hflat
    refine ⟨hx.overlaps_of_admitsHolding hflat, ?_, fun hleaf hleaves => ⟨?_, ?_, ?_, ?_⟩⟩
    · intro h
      obtain ⟨y, hy, h⟩ := h
      exact ⟨y, hy, (hxs y hy).overlaps_of_admitsHolding hflat h⟩
    · exact hleaf.overlaps_typeOf_iff hx hflat
    · exact exists_congr fun y => and_congr_right fun hy =>
        (hleaves y hy).overlaps_typeOf_iff (hxs y hy) hflat
    · exact hleaf.overlaps_arrayElements_iff hx hflat
    · exact exists_congr fun y => and_congr_right fun hy =>
        (hleaves y hy).overlaps_arrayElements_iff (hxs y hy) hflat

/-- Of scores that may be missing, a list can hold the 3, and no list is the 3. -/
theorem keeps_of_admits_scores :
    let scores : FieldType := .union [.primitive .null, .array (.primitive .number)]
    let games : Variant := ⟨⟨[("scores", scores)]⟩, ["games/1"]⟩
    let u := candidates [games] none
    let values : List Value := [.null, .integer 3]
    u.Reachable ∧ scores.Flat ∧ (∀ y ∈ values, y.Plain ∧ y.IsLeaf) ∧
      u.Keeps "scores" .isIn (.sequence .list values) games ∧
      ¬ u.Keeps "scores" .equal (.integer 3) games ∧
      u.Keeps "scores" .arrayContains (.integer 3) games ∧
      u.Keeps "scores" .arrayContainsAny (.sequence .list values) games := by
  intro scores games u values
  have hu : u.Reachable := .ofPairs [(games.schema, "games/1")]
  have hflat : scores.Flat := .union_of_members <| List.forall_mem_cons.2
    ⟨⟨rfl, rfl, .primitive _⟩, List.forall_mem_singleton.2 ⟨rfl, rfl, .array (.primitive _)⟩⟩
  have hplain : (Value.integer 3).Plain := .number nofun
  have hvalues : ∀ y ∈ values, y.Plain ∧ y.IsLeaf :=
    List.forall_mem_cons.2 ⟨⟨.null, rfl⟩, List.forall_mem_singleton.2 ⟨hplain, rfl⟩⟩
  obtain ⟨-, -, -, -, harrays⟩ := keeps_of_admits hu List.mem_cons_self
    (show games.schema.fieldAt? "scores" = some scores from rfl) hplain
    (fun y hy => (hvalues y hy).1) .list
  obtain ⟨-, -, hexact⟩ := harrays hflat
  obtain ⟨hequal, hin, hcontains, hany⟩ := hexact rfl fun y hy => (hvalues y hy).2
  have hholds : scores.AdmitsHolding (.integer 3) :=
    (FieldType.admitsHolding_iff hflat).2 ⟨.primitive .number, List.mem_singleton.2 rfl, rfl⟩
  refine ⟨hu, hflat, hvalues, hin.2 ⟨.null, List.mem_cons_self, .inl rfl⟩, fun h => ?_,
    hcontains.2 hholds, hany.2 ⟨_, List.mem_cons_of_mem _ List.mem_cons_self, hholds⟩⟩
  obtain ⟨m, hm, hadmits⟩ := FieldType.admits_union_iff.1 (hequal.1 h)
  rcases List.mem_pair.1 hm with rfl | rfl <;> cases hadmits

/--
A filter on arrays does not look into a union inside a union, and one without alternatives counts as
an alternative that is below every type. A value that holds itself cannot be compared with at all.
-/
theorem not_keeps_of_admits :
    let nested : FieldType := .union [.union [.array (.primitive .number)]]
    let bare : FieldType := .union [.union []]
    let ring : Value := .mapping [(.text "next", .enclosingMapping 1)]
    let games (t : FieldType) : Variant := ⟨⟨[("scores", t)]⟩, ["games/1"]⟩
    let u (t : FieldType) : SchemaUnion := candidates [games t] none
    (∀ t, (u t).Reachable ∧ games t ∈ (u t).variants ∧
      (games t).schema.fieldAt? "scores" = some t) ∧
      nested.AdmitsHolding (.integer 3) ∧
      ¬ (u nested).Keeps "scores" .arrayContains (.integer 3) (games nested) ∧
      ¬ bare.Admits (.integer 3) ∧ (u bare).Keeps "scores" .equal (.integer 3) (games bare) ∧
      FieldType.any.Admits ring ∧ (u .any).compare "scores" .equal ring = .error .endlessValue := by
  intro nested bare ring games u
  have hu (t : FieldType) : (u t).Reachable := .ofPairs [((games t).schema, "games/1")]
  have hgames (t : FieldType) : games t ∈ (u t).variants := List.mem_cons_self
  have hfield (t : FieldType) : (games t).schema.fieldAt? "scores" = some t := rfl
  refine ⟨fun t => ⟨hu t, hgames t, hfield t⟩, ?_, fun h => ?_, fun h => ?_, ?_, trivial, ?_⟩
  · have harray : (FieldType.array (.primitive .number)).Admits (.sequence .list [.integer 3]) :=
      FieldType.admits_array_iff.2 ⟨_, _, rfl, List.forall_mem_singleton.2 rfl⟩
    exact ⟨.list, [.integer 3], List.mem_singleton.2 rfl, .inl (.inl harray)⟩
  · obtain ⟨e, he, -⟩ := (keeps_arrayContains_iff (hu nested) (hgames nested) (hfield nested) rfl).1 h
    cases he
  · obtain ⟨m, hm, h⟩ := FieldType.admits_union_iff.1 h
    obtain rfl := List.mem_singleton.1 hm
    obtain ⟨m, hm, -⟩ := FieldType.admits_union_iff.1 h
    cases hm
  · refine (keeps_iff_overlaps (hu bare) (hgames bare) (hfield bare) rfl (.inl rfl)).2 ?_
    refine FieldType.overlaps_iff.2 ⟨.union [], List.mem_singleton.2 rfl, _,
      List.mem_singleton.2 rfl, .inl ?_⟩
    exact FieldType.isSubtype_union_left.2 nofun
  · exact compare_of_not_finite rfl

end SchemaUnion
end SchemaAtlas
