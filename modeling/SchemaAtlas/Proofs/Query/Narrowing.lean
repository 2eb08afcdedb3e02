import SchemaAtlas.Proofs.Except
import SchemaAtlas.Proofs.FieldType.Subtyping
import SchemaAtlas.Query.Filter

/-!
# Narrowing by several predicates

What is left of a union after any number of predicates, in closed form: the generic union if one of
the fields is declared nowhere, and otherwise the variants that pass every predicate on their own.
What is declared is judged by the union that narrowing started from, which no step changes, so the
order of the predicates and their repetition do not matter. Predicates are taken up to equality of
types, under which the members of unions have no order either.
-/
namespace SchemaAtlas

namespace Comparison

/-- Comparisons with the same type or the same alternatives. -/
def Same : Comparison → Comparison → Prop
  | nothing, nothing => True
  | single a, single b => FieldType.same a b = true
  | candidates as, candidates bs => FieldType.SameMembers as bs
  | _, _ => False

theorem candidateTypes_of_same {c d : Comparison} (h : c.Same d) :
    FieldType.SameMembers c.candidateTypes d.candidateTypes := by
  cases c with
  | nothing =>
    cases d with
    | nothing => exact ⟨fun a ha => ⟨a, ha, a.same_refl⟩, fun a ha => ⟨a, ha, a.same_refl⟩⟩
    | _ => exact h.elim
  | candidates as =>
    cases d with
    | candidates bs => exact h
    | _ => exact h.elim
  | single a =>
    cases d with
    | single b =>
      cases a with
      | array element =>
        obtain ⟨other, rfl, he⟩ := FieldType.same_array_iff.1 h
        exact FieldType.members_of_same he
      | _ =>
        cases b with
        | array element => simp [Same, FieldType.same] at h
        | _ => exact FieldType.members_of_same h
    | _ => exact h.elim

theorem singleType_of_same {c d : Comparison} (h : c.Same d) :
    c.singleType = d.singleType ∨
      ∃ a b, c.singleType = .ok a ∧ d.singleType = .ok b ∧ FieldType.same a b = true := by
  cases c <;> cases d <;> first | exact h.elim | skip
  · exact .inl rfl
  · exact .inr ⟨_, _, rfl, rfl, h⟩
  · exact .inl rfl

/-- A test of single types that does not tell same types apart. -/
private theorem map_singleType_congr {c d : Comparison} (h : c.Same d)
    {test : FieldType → FieldType → Bool}
    (htest : ∀ a b, FieldType.same a b = true → test a = test b) :
    c.singleType.map test = d.singleType.map test := by
  rcases singleType_of_same h with heq | ⟨a, b, ha, hb, hab⟩
  · rw [heq]
  · rw [ha, hb, Except.map, Except.map, htest a b hab]

end Comparison

theorem Operator.admits_congr (operator : Operator) {c d : Comparison} (h : c.Same d) :
    operator.admits c = operator.admits d := by
  have hoverlap : ∀ type a b, FieldType.same a b = true →
      FieldType.overlaps type a = FieldType.overlaps type b :=
    fun type _ _ hab => FieldType.overlaps_congr type.same_refl hab
  have hsome : ∀ type : FieldType, c.candidateTypes.any (type.overlaps ·) =
      d.candidateTypes.any (type.overlaps ·) := fun type =>
    FieldType.any_congr_of_sameMembers (Comparison.candidateTypes_of_same h) (hoverlap type)
  cases operator with
  | hasField | notIn => rfl
  | notEqual =>
    refine Comparison.map_singleType_congr h fun a b hab => funext fun type => ?_
    rw [FieldType.isSubtype_congr type.same_refl hab]
  | isIn =>
    rw [admits, admits]
    simp only [hsome]
  | arrayContains =>
    refine Comparison.map_singleType_congr h fun a b hab => funext fun type => ?_
    simp only [hoverlap _ a b hab]
  | arrayContainsAny =>
    rw [admits, admits]
    simp only [hsome]
  | _ =>
    refine Comparison.map_singleType_congr h fun a b hab => funext fun type => ?_
    exact hoverlap type a b hab

namespace Predicate

/-- The predicate compares a field with some value. -/
def OfValue (p : Predicate) : Prop :=
  ∃ field operator value, ofValue field operator value = .ok p

/-- The operator gets one type where it compares with one. -/
def Evaluable (p : Predicate) : Prop := ∃ admits, p.operator.admits p.comparison = .ok admits

/-- Whether a field of this type can satisfy the predicate. -/
def admits (p : Predicate) (type : FieldType) : Bool :=
  match p.operator.admits p.comparison with
  | .ok admits => admits type
  | .error _ => false

/--
Whether a schema passes the predicate on its own: it has the field at a type that can satisfy it.
-/
def passedBy (p : Predicate) (schema : Schema) : Bool :=
  match p.field with
  | .text name => SchemaUnion.passes p.admits name schema
  | _ => false

/-- The same operator and comparison on the same field, or on two that are no texts. -/
def Same (p q : Predicate) : Prop :=
  (∀ name, p.field = .text name ↔ q.field = .text name) ∧ p.operator = q.operator ∧
    p.comparison.Same q.comparison

theorem OfValue.evaluable {p : Predicate} (h : p.OfValue) : p.Evaluable := by
  obtain ⟨field, operator, value, h⟩ := h
  unfold ofValue at h
  split at h
  · obtain rfl := Except.ok.inj h
    unfold Evaluable
    cases operator <;>
      simp [Operator.admits, Comparison.ofValue, Operator.takesCandidates, Comparison.singleType,
        Except.map]
  · cases h

theorem of_ofSymbol {field symbol value : Value} {p : Predicate}
    (h : ofSymbol field symbol value = .ok p) : p.field = field ∧ p.OfValue := by
  obtain ⟨operator, -, hp⟩ := exists_of_bind_eq_ok h
  refine ⟨?_, field, operator, value, hp⟩
  unfold ofValue at hp
  split at hp
  · obtain rfl := Except.ok.inj hp
    rfl
  · cases hp

theorem admits_eq_of_same {p q : Predicate} (h : p.Same q) :
    p.operator.admits p.comparison = q.operator.admits q.comparison := by
  rw [h.2.1]
  exact Operator.admits_congr q.operator h.2.2

theorem Evaluable.of_same {p q : Predicate} (h : p.Same q) (hp : p.Evaluable) : q.Evaluable := by
  obtain ⟨admits, ha⟩ := hp
  exact ⟨admits, admits_eq_of_same h ▸ ha⟩

theorem passedBy_of_same {p q : Predicate} (h : p.Same q) : p.passedBy = q.passedBy := by
  have hadmits : p.admits = q.admits := by
    funext type
    rw [admits, admits_eq_of_same h, admits]
  funext schema
  unfold passedBy
  rw [hadmits]
  split
  · rename_i name hname
    rw [(h.1 name).1 hname]
  · rename_i hp
    split
    · rename_i name hname
      exact absurd ((h.1 name).2 hname) (hp name)
    · rfl

end Predicate

namespace SchemaUnion

/-- Some schema before any filtering has the field, which is a text. -/
def Declares (u : SchemaUnion) (field : Value) : Prop :=
  ∃ name, field = .text name ∧ ∃ schema ∈ u.declaredSchemas, schema.hasField name = true

theorem declaredField?_eq_some {u : SchemaUnion} {field : Value} {name : String} :
    u.declaredField? field = some name ↔
      field = .text name ∧ ∃ schema ∈ u.declaredSchemas, schema.hasField name = true := by
  unfold declaredField?
  split
  · rename_i text
    rw [Option.ite_none_right_eq_some, List.any_eq_true, Value.text.injEq, Option.some.injEq]
    constructor
    · intro h
      obtain ⟨h, rfl⟩ := h
      exact ⟨rfl, h⟩
    · intro h
      obtain ⟨rfl, h⟩ := h
      exact ⟨h, rfl⟩
  · rename_i hne
    simp only [reduceCtorEq, false_iff]
    intro h
    obtain ⟨rfl, _⟩ := h
    exact hne name rfl

theorem declaredField?_eq_none {u : SchemaUnion} {field : Value} :
    u.declaredField? field = none ↔ ¬ u.Declares field := by
  rw [Option.eq_none_iff_forall_not_mem]
  constructor
  · intro h h
    obtain ⟨name, hname⟩ := h
    exact h name (declaredField?_eq_some.2 hname)
  · intro h name hname
    exact h ⟨name, declaredField?_eq_some.1 hname⟩

theorem isUnfilterable_iff {u : SchemaUnion} :
    u.isUnfilterable = true ↔ u.isGeneric = true ∨ u.declaredSchemas = [] := by
  simp [isUnfilterable]

theorem isUnfilterable_eq_false_iff {u : SchemaUnion} :
    u.isUnfilterable = false ↔ u.isGeneric = false ∧ u.declaredSchemas ≠ [] := by
  rw [← Bool.not_eq_true, isUnfilterable_iff, not_or, Bool.not_eq_true]

theorem isGeneric_filtered (keep : Schema → Bool) (u : SchemaUnion) :
    (u.filtered keep).isGeneric = u.isGeneric := by
  cases u <;> rfl

theorem declaredSchemas_filtered (keep : Schema → Bool) (u : SchemaUnion) :
    (u.filtered keep).declaredSchemas = u.declaredSchemas := by
  cases u <;> rfl

theorem variants_filtered (keep : Schema → Bool) (u : SchemaUnion) :
    (u.filtered keep).variants = u.variants.filter fun v => keep v.schema := by
  cases u <;> rfl

theorem filtered_filtered (keep more : Schema → Bool) (u : SchemaUnion) :
    (u.filtered keep).filtered more = u.filtered fun s => keep s && more s := by
  cases u with
  | generic => rfl
  | candidates variants filteredFrom =>
    simp only [filtered, List.filter_filter, Bool.and_comm]
    rfl

theorem isUnfilterable_filtered (keep : Schema → Bool) (u : SchemaUnion) :
    (u.filtered keep).isUnfilterable = u.isUnfilterable := by
  rw [isUnfilterable, isGeneric_filtered, declaredSchemas_filtered, isUnfilterable]

theorem declares_filtered {keep : Schema → Bool} {u : SchemaUnion} {field : Value} :
    (u.filtered keep).Declares field ↔ u.Declares field := by
  rw [Declares, declaredSchemas_filtered, Declares]

theorem narrow_of_unfilterable {u : SchemaUnion} (hu : u.isUnfilterable = true) (p : Predicate) :
    u.narrow p = .ok u := by
  rw [narrow, filterBy, if_pos hu]

theorem narrow_of_not_declares {u : SchemaUnion} (hu : u.isUnfilterable = false) {p : Predicate}
    (hp : ¬ u.Declares p.field) : u.narrow p = .ok generic := by
  rw [narrow, filterBy, hu, declaredField?_eq_none.2 hp]
  rfl

theorem narrow_of_declares {u : SchemaUnion} (hu : u.isUnfilterable = false) {p : Predicate}
    (he : p.Evaluable) (hp : u.Declares p.field) : u.narrow p = .ok (u.filtered p.passedBy) := by
  obtain ⟨name, hname, hs⟩ := hp
  obtain ⟨admits, ha⟩ := he
  have hadmits : p.admits = admits := by
    funext type
    rw [Predicate.admits, ha]
  have hpassed : p.passedBy = passes admits name := by
    funext schema
    rw [Predicate.passedBy, hname, hadmits]
  rw [narrow, filterBy, hu, declaredField?_eq_some.2 ⟨hname, hs⟩, ha, hpassed]
  rfl

theorem exists_narrow (u : SchemaUnion) {p : Predicate} (he : p.Evaluable) :
    ∃ w, u.narrow p = .ok w := by
  cases hu : u.isUnfilterable with
  | true => exact ⟨u, narrow_of_unfilterable hu p⟩
  | false =>
    by_cases hp : u.Declares p.field
    · exact ⟨_, narrow_of_declares hu he hp⟩
    · exact ⟨_, narrow_of_not_declares hu hp⟩

theorem narrowAll_nil (u : SchemaUnion) : u.narrowAll [] = .ok u := rfl

theorem narrowAll_cons {u w : SchemaUnion} {p : Predicate} (h : u.narrow p = .ok w)
    (ps : List Predicate) : u.narrowAll (p :: ps) = w.narrowAll ps := by
  rw [narrowAll, List.foldlM_cons, h]
  rfl

theorem exists_narrowAll (u : SchemaUnion) {ps : List Predicate} (he : ∀ p ∈ ps, p.Evaluable) :
    ∃ w, u.narrowAll ps = .ok w := by
  induction ps generalizing u with
  | nil => exact ⟨u, rfl⟩
  | cons p ps ih =>
    obtain ⟨w, hw⟩ := u.exists_narrow (he p List.mem_cons_self)
    rw [narrowAll_cons hw]
    exact ih w fun q hq => he q (List.mem_cons_of_mem p hq)

theorem narrowAll_concat {u w x : SchemaUnion} {ps : List Predicate} {p : Predicate}
    (hw : u.narrowAll ps = .ok w) (hx : w.narrow p = .ok x) : u.narrowAll (ps ++ [p]) = .ok x := by
  rw [narrowAll] at hw ⊢
  rw [List.foldlM_append, hw]
  change List.foldlM narrow w [p] = _
  rw [List.foldlM_cons, hx]
  rfl

theorem narrowAll_of_unfilterable {u : SchemaUnion} (hu : u.isUnfilterable = true)
    (ps : List Predicate) : u.narrowAll ps = .ok u := by
  induction ps with
  | nil => rfl
  | cons p ps ih => rw [narrowAll_cons (narrow_of_unfilterable hu p), ih]

/-- One field that is declared nowhere makes the result generic, whatever is around it. -/
theorem narrowAll_of_not_declares {u : SchemaUnion} (hu : u.isUnfilterable = false)
    {ps : List Predicate} (he : ∀ p ∈ ps, p.Evaluable) (hp : ∃ p ∈ ps, ¬ u.Declares p.field) :
    u.narrowAll ps = .ok generic := by
  induction ps generalizing u with
  | nil =>
    obtain ⟨p, hp, _⟩ := hp
    exact absurd hp List.not_mem_nil
  | cons p ps ih =>
    by_cases hd : u.Declares p.field
    · rw [narrowAll_cons (narrow_of_declares hu (he p List.mem_cons_self) hd)]
      apply ih
      · rw [isUnfilterable_filtered, hu]
      · exact fun q hq => he q (List.mem_cons_of_mem _ hq)
      · obtain ⟨q, hq, hnot⟩ := hp
        rcases List.mem_cons.1 hq with rfl | hq
        · exact absurd hd hnot
        -- filtering may remove the variants of a later field, but not its declaration
        · exact ⟨q, hq, fun h => hnot (declares_filtered.1 h)⟩
    · rw [narrowAll_cons (narrow_of_not_declares hu hd)]
      exact narrowAll_of_unfilterable rfl ps

/-- Where every field is declared somewhere, a variant stays if it passes every predicate. -/
theorem narrowAll_of_declares {u : SchemaUnion} (hu : u.isUnfilterable = false)
    {ps : List Predicate} (he : ∀ p ∈ ps, p.Evaluable) (hd : ∀ p ∈ ps, u.Declares p.field)
    (keep : Schema → Bool) :
    (u.filtered keep).narrowAll ps =
      .ok (u.filtered fun s => keep s && ps.all (·.passedBy s)) := by
  induction ps generalizing keep with
  | nil => simp [narrowAll_nil]
  | cons p ps ih =>
    have hp := narrow_of_declares ((isUnfilterable_filtered keep u).trans hu)
      (he p List.mem_cons_self) (declares_filtered.2 (hd p List.mem_cons_self))
    rw [narrowAll_cons hp, filtered_filtered, ih (fun q hq => he q (List.mem_cons_of_mem _ hq))
      fun q hq => hd q (List.mem_cons_of_mem _ hq)]
    simp only [List.all_cons, Bool.and_assoc]

/--
What several predicates leave: the union itself where they say nothing, the generic union if some
field is declared nowhere, and else the variants that pass all of them.
-/
theorem narrowAll_cases (u : SchemaUnion) {ps : List Predicate} (he : ∀ p ∈ ps, p.Evaluable) :
    (u.isUnfilterable = true ∨ ps = []) ∧ u.narrowAll ps = .ok u ∨
    u.isUnfilterable = false ∧ (∃ p ∈ ps, ¬ u.Declares p.field) ∧
      u.narrowAll ps = .ok generic ∨
    u.isUnfilterable = false ∧ ps ≠ [] ∧ (∀ p ∈ ps, u.Declares p.field) ∧
      u.narrowAll ps = .ok (u.filtered fun s => ps.all (·.passedBy s)) := by
  cases hu : u.isUnfilterable with
  | true => exact .inl ⟨.inl rfl, narrowAll_of_unfilterable hu ps⟩
  | false =>
    cases ps with
    | nil => exact .inl ⟨.inr rfl, rfl⟩
    | cons p ps =>
      by_cases hd : ∀ q ∈ p :: ps, u.Declares q.field
      · refine .inr (.inr ⟨rfl, List.cons_ne_nil p ps, hd, ?_⟩)
        rw [narrowAll_cons (narrow_of_declares hu (he p List.mem_cons_self)
          (hd p List.mem_cons_self)), narrowAll_of_declares hu
          (fun q hq => he q (List.mem_cons_of_mem _ hq))
          fun q hq => hd q (List.mem_cons_of_mem _ hq)]
        rfl
      · have hnot : ∃ q ∈ p :: ps, ¬ u.Declares q.field := by
          simpa only [not_forall, exists_prop] using hd
        exact .inr (.inl ⟨rfl, hnot, narrowAll_of_not_declares hu he hnot⟩)

/-- Every predicate of the one list is the same as one of the other list, both ways. -/
def SamePredicates (ps qs : List Predicate) : Prop :=
  (∀ p ∈ ps, ∃ q ∈ qs, p.Same q) ∧ ∀ q ∈ qs, ∃ p ∈ ps, p.Same q

theorem declares_of_same {u : SchemaUnion} {p q : Predicate} (h : p.Same q) :
    u.Declares p.field ↔ u.Declares q.field := by
  constructor
  · intro h
    obtain ⟨name, hname, hs⟩ := h
    exact ⟨name, (h.1 name).1 hname, hs⟩
  · intro h
    obtain ⟨name, hname, hs⟩ := h
    exact ⟨name, (h.1 name).2 hname, hs⟩

theorem all_passedBy_of_samePredicates {ps qs : List Predicate} (h : SamePredicates ps qs)
    (schema : Schema) : ps.all (·.passedBy schema) = qs.all (·.passedBy schema) := by
  rw [Bool.eq_iff_iff, List.all_eq_true, List.all_eq_true]
  constructor
  · intro hps q hq
    obtain ⟨p, hp, hpq⟩ := h.2 q hq
    rw [← Predicate.passedBy_of_same hpq]
    exact hps p hp
  · intro hqs p hp
    obtain ⟨q, hq, hpq⟩ := h.1 p hp
    rw [Predicate.passedBy_of_same hpq]
    exact hqs q hq

/-- Only the set of predicates counts. -/
theorem narrowAll_of_samePredicates (u : SchemaUnion) {ps qs : List Predicate}
    (he : ∀ p ∈ ps, p.Evaluable) (h : SamePredicates ps qs) :
    u.narrowAll qs = u.narrowAll ps := by
  have heq : ∀ q ∈ qs, q.Evaluable := by
    intro q hq
    obtain ⟨p, hp, hpq⟩ := h.2 q hq
    exact (he p hp).of_same hpq
  rcases u.narrowAll_cases he with ⟨hu | rfl, hps⟩ | ⟨hu, ⟨p, hp, hnot⟩, hps⟩ | ⟨hu, hne, hd, hps⟩
  · rw [hps, narrowAll_of_unfilterable hu]
  · have hnil : qs = [] := by
      refine List.eq_nil_iff_forall_not_mem.2 fun q hq => ?_
      obtain ⟨p, hp, _⟩ := h.2 q hq
      exact List.not_mem_nil hp
    rw [hnil]
  · obtain ⟨q, hq, hpq⟩ := h.1 p hp
    rw [hps, narrowAll_of_not_declares hu heq ⟨q, hq, fun hd => hnot ((declares_of_same hpq).2 hd)⟩]
  · rcases u.narrowAll_cases heq with ⟨hu' | rfl, _⟩ | ⟨_, ⟨q, hq, hnot⟩, _⟩ | ⟨_, _, _, hqs⟩
    · rw [hu] at hu'
      cases hu'
    · obtain ⟨p, hp⟩ := List.exists_mem_of_ne_nil ps hne
      obtain ⟨q, hq, _⟩ := h.1 p hp
      exact absurd hq List.not_mem_nil
    · obtain ⟨p, hp, hpq⟩ := h.2 q hq
      exact absurd ((declares_of_same hpq).1 (hd p hp)) hnot
    · rw [hqs, hps]
      simp only [all_passedBy_of_samePredicates h]

/--
Predicates on values never fail. They leave a union as it is that is generic or started from
nothing. From any other the result is generic exactly if some field is declared nowhere, and
otherwise it has the variants that pass every predicate on their own, with their origins, and the
declared schemas of the union. Any list of the same predicates gives the same result.
-/
theorem narrowAll_closed_form (u : SchemaUnion) (ps : List Predicate)
    (hps : ∀ p ∈ ps, p.OfValue) :
    ∃ r, u.narrowAll ps = .ok r ∧
      (u.isGeneric = true ∨ u.declaredSchemas = [] → r = u) ∧
      (u.isGeneric = false → u.declaredSchemas ≠ [] →
        (r.isGeneric = true ↔ ∃ p ∈ ps, ¬ u.Declares p.field) ∧
        (r.isGeneric = false →
          r.variants = u.variants.filter (fun v => ps.all (·.passedBy v.schema)) ∧
          r.declaredSchemas = u.declaredSchemas)) ∧
      ∀ qs, SamePredicates ps qs → u.narrowAll qs = .ok r := by
  have he : ∀ p ∈ ps, p.Evaluable := fun p hp => (hps p hp).evaluable
  have hset : ∀ r, u.narrowAll ps = .ok r → ∀ qs, SamePredicates ps qs → u.narrowAll qs = .ok r :=
    fun r hr qs h => (u.narrowAll_of_samePredicates he h).trans hr
  rcases u.narrowAll_cases he with ⟨hu | rfl, hr⟩ | ⟨hu, hnot, hr⟩ | ⟨hu, _, hd, hr⟩
  · refine ⟨u, hr, fun _ => rfl, fun hgeneric hdeclared => ?_, hset u hr⟩
    rcases isUnfilterable_iff.1 hu with h | h
    · rw [hgeneric] at h
      cases h
    · exact absurd h hdeclared
  · refine ⟨u, hr, fun _ => rfl, fun hgeneric _ => ⟨?_, fun _ => ⟨?_, rfl⟩⟩, hset u hr⟩
    · simp [hgeneric]
    · simp
  · refine ⟨generic, hr, fun h => ?_, fun _ _ => ⟨⟨fun _ => hnot, fun _ => rfl⟩, ?_⟩, hset _ hr⟩
    · rw [isUnfilterable_iff.2 h] at hu
      cases hu
    · exact fun h => Bool.noConfusion h
  · refine ⟨_, hr, fun h => ?_, fun hgeneric _ => ⟨?_, fun _ => ⟨?_, ?_⟩⟩, hset _ hr⟩
    · rw [isUnfilterable_iff.2 h] at hu
      cases hu
    · rw [isGeneric_filtered, hgeneric]
      simpa using hd
    · exact variants_filtered _ u
    · exact declaredSchemas_filtered _ u

/-- Of two declared shapes the one that knows the age and may be an admin's is left. -/
theorem narrowAll_closed_form_admins :
    let adult : Variant :=
      ⟨⟨[("age", .primitive .number), ("role", .primitive .string)]⟩, ["users/1"]⟩
    let staff : Variant := ⟨⟨[("role", .literal (.text "admin"))]⟩, ["staff/1"]⟩
    let ps : List Predicate :=
      [⟨.text "role", .equal, .single (.literal (.text "admin"))⟩,
        ⟨.text "age", .hasField, .nothing⟩]
    (∀ p ∈ ps, p.OfValue) ∧
      ∃ r, (candidates [adult, staff] none).narrowAll ps = .ok r ∧ r.variants = [adult] := by
  intro adult staff ps
  have hps : ∀ p ∈ ps, p.OfValue := by
    intro p hp
    rcases List.mem_pair.1 hp with rfl | rfl
    · exact ⟨.text "role", .equal, .text "admin", rfl⟩
    · exact ⟨.text "age", .hasField, .null, rfl⟩
  obtain ⟨r, hr, _, hclosed, _⟩ := narrowAll_closed_form (candidates [adult, staff] none) ps hps
  obtain ⟨hgeneric, hvariants⟩ := hclosed rfl (List.cons_ne_nil _ _)
  have hplain : r.isGeneric = false := by
    rw [← Bool.not_eq_true, hgeneric]
    intro h
    obtain ⟨p, hp, hnot⟩ := h
    rcases List.mem_pair.1 hp with rfl | rfl
    · exact hnot ⟨"role", rfl, adult.schema, List.mem_cons_self, rfl⟩
    · exact hnot ⟨"age", rfl, adult.schema, List.mem_cons_self, rfl⟩
  refine ⟨hps, r, hr, ?_⟩
  rw [(hvariants hplain).1]
  have hadmin : FieldType.overlaps (.primitive .string) (.literal (.text "admin")) = true := by
    simp [FieldType.overlaps, FieldType.members, FieldType.isSubtype, Literal.base]
  have hadult : ps.all (·.passedBy adult.schema) = true := by
    rw [List.all_cons, List.all_cons, List.all_nil, Bool.and_true, Bool.and_eq_true]
    exact ⟨hadmin, rfl⟩
  have hstaff : ps.all (·.passedBy staff.schema) = false := by
    rw [List.all_cons, List.all_cons, Bool.and_eq_false_iff, Bool.and_eq_false_iff]
    exact .inr (.inl rfl)
  rw [variants, List.filter_cons, List.filter_cons, hadult, hstaff]
  rfl

end SchemaUnion
end SchemaAtlas
