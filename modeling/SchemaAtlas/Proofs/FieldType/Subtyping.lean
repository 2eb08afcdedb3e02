import SchemaAtlas.FieldType.Subtyping
import SchemaAtlas.Proofs.FieldType.Equality

/-!
# Subtyping on same types

Subtyping, overlap and the element types of arrays do not tell types apart that are the same. The
lemmas before that give subtyping case by case: a union is below a type if all members are, and any
other type is below a union if it is below one of the members.
-/
namespace SchemaAtlas
namespace FieldType

def isUnion : FieldType → Bool
  | union _ => true
  | _ => false

theorem isAny_iff {t : FieldType} : t.isAny = true ↔ t = any := by
  cases t <;> simp [isAny]

@[simp] theorem isSubtype_any_left (b : FieldType) : isSubtype any b = true := by
  rw [isSubtype]

@[simp] theorem isSubtype_any_right (a : FieldType) : isSubtype a any = true := by
  cases a <;> simp [isSubtype]

theorem allSubtypes_iff {members : List FieldType} {target : FieldType} :
    allSubtypes members target = true ↔ ∀ m ∈ members, isSubtype m target = true := by
  induction members with
  | nil => simp [allSubtypes]
  | cons m members ih => simp [allSubtypes, ih]

theorem isSubtypeOfSome_iff {candidate : FieldType} {members : List FieldType} :
    isSubtypeOfSome candidate members = true ↔ ∃ m ∈ members, isSubtype candidate m = true := by
  induction members with
  | nil => simp [isSubtypeOfSome]
  | cons m members ih => simp [isSubtypeOfSome, ih]

theorem isSubtype_union_left {members : List FieldType} {target : FieldType} :
    isSubtype (union members) target = true ↔ ∀ m ∈ members, isSubtype m target = true := by
  by_cases h : target = any
  · subst h
    simp
  · rw [isSubtype, allSubtypes_iff]
    exact h

theorem isSubtype_union_right {candidate : FieldType} (hany : candidate.isAny = false)
    (hunion : candidate.isUnion = false) {members : List FieldType} :
    isSubtype candidate (union members) = true ↔
      ∃ m ∈ members, isSubtype candidate m = true := by
  cases candidate with
  | any => simp [isAny] at hany
  | union ms => simp [isUnion] at hunion
  | _ => rw [isSubtype, isSubtypeOfSome_iff] <;> simp

theorem hasField_iff {fields : List (String × FieldType)} {name : String} {type : FieldType} :
    hasField fields name type = true ↔
      ∃ found, fields.lookup name = some found ∧ isSubtype found type = true := by
  induction fields with
  | nil => simp [hasField]
  | cons field fields ih =>
    obtain ⟨other, candidate⟩ := field
    rw [hasField, List.lookup_cons]
    by_cases h : name = other
    · simp [h]
    · simp [h, beq_false_of_ne h, ih]

theorem hasFields_iff {candidate target : List (String × FieldType)} :
    hasFields candidate target = true ↔ ∀ field ∈ target,
      ∃ found, candidate.lookup field.1 = some found ∧ isSubtype found field.2 = true := by
  induction target with
  | nil => simp [hasFields]
  | cons field target ih =>
    obtain ⟨name, type⟩ := field
    rw [hasFields, Bool.and_eq_true, hasField_iff, ih, List.forall_mem_cons]

theorem isSubtype_primitive_iff {kind : Primitive} {b : FieldType} (hany : b.isAny = false)
    (hunion : b.isUnion = false) :
    isSubtype (primitive kind) b = true ↔ b = primitive kind := by
  cases b with
  | any => simp [isAny] at hany
  | union members => simp [isUnion] at hunion
  | primitive other =>
    rw [isSubtype, decide_eq_true_iff, primitive.injEq]
    exact eq_comm
  | _ => simp [isSubtype]

theorem isSubtype_literal_iff {value : Literal} {b : FieldType} (hany : b.isAny = false)
    (hunion : b.isUnion = false) :
    isSubtype (literal value) b = true ↔
      same (literal value) b = true ∨ b = primitive value.base := by
  cases b with
  | any => simp [isAny] at hany
  | union members => simp [isUnion] at hunion
  | primitive kind =>
    rw [isSubtype, decide_eq_true_iff, primitive.injEq]
    simp [same, eq_comm]
  | literal other => simp [isSubtype, same]
  | _ => simp [isSubtype, same]

theorem isSubtype_array_iff {element b : FieldType} (hany : b.isAny = false)
    (hunion : b.isUnion = false) :
    isSubtype (array element) b = true ↔
      ∃ other, b = array other ∧ isSubtype element other = true := by
  cases b with
  | any => simp [isAny] at hany
  | union members => simp [isUnion] at hunion
  | _ => simp [isSubtype]

/-- A map is below another if it has every field of that one at a subtype. -/
theorem isSubtype_map_iff {fields : List (String × FieldType)} {b : FieldType}
    (hany : b.isAny = false) (hunion : b.isUnion = false) :
    isSubtype (map fields) b = true ↔ ∃ others, b = map others ∧ ∀ field ∈ others,
      ∃ found, fields.lookup field.1 = some found ∧ isSubtype found field.2 = true := by
  cases b with
  | any => simp [isAny] at hany
  | union members => simp [isUnion] at hunion
  | map others =>
    rw [isSubtype, Bool.or_eq_true, Bool.and_eq_true, hasFields_iff]
    constructor
    · intro h
      rcases h with h | h
      · obtain rfl := List.isEmpty_iff.1 h
        exact ⟨[], rfl, fun field hf => absurd hf List.not_mem_nil⟩
      · exact ⟨others, rfl, h.2⟩
    · intro h
      obtain ⟨_, ⟨⟩, h⟩ := h
      cases others with
      | nil => exact .inl rfl
      | cons field rest =>
        obtain ⟨found, hf, _⟩ := h field List.mem_cons_self
        refine .inr ⟨?_, h⟩
        cases fields with
        | nil => cases hf
        | cons => rfl
  | _ => simp [isSubtype]

theorem isAny_of_same {a b : FieldType} (h : same a b = true) : b.isAny = a.isAny := by
  cases a <;> cases b <;> first | rfl | simp [same] at h

theorem isUnion_of_same {a b : FieldType} (h : same a b = true) : b.isUnion = a.isUnion := by
  cases a <;> cases b <;> first | rfl | simp [same] at h

/-- A type that is found among fields is the same as the one found among the same fields. -/
theorem lookup_of_sameFields {as bs : List (String × FieldType)} {name : String} {a : FieldType}
    (h : SameFields as bs) (ha : as.lookup name = some a) :
    ∃ b, bs.lookup name = some b ∧ same a b = true := by
  unfold SameFields at h
  induction h with
  | nil => cases ha
  | @cons field other _ _ hd _ ht =>
    obtain ⟨n, x⟩ := field
    obtain ⟨m, y⟩ := other
    obtain ⟨rfl, hxy⟩ : n = m ∧ same x y = true := hd
    rw [List.lookup_cons] at ha ⊢
    cases hn : name == n with
    | true =>
      rw [hn] at ha
      obtain rfl := Option.some.inj ha
      exact ⟨y, rfl, hxy⟩
    | false =>
      rw [hn] at ha
      exact ht ha

/--
A type that is no union is below what is the same as something it is below, if that holds of targets
that are no unions either.
-/
private theorem isSubtype_of_same_target {a a' : FieldType} (hany : a.isAny = false)
    (hunion : a.isUnion = false) (ha : same a a' = true)
    (hplain : ∀ b b', b.isAny = false → b.isUnion = false → same b b' = true →
      isSubtype a b = true → isSubtype a' b' = true)
    {b b' : FieldType} (hb : same b b' = true) (h : isSubtype a b = true) :
    isSubtype a' b' = true := by
  have hany' : a'.isAny = false := (isAny_of_same ha).trans hany
  have hunion' : a'.isUnion = false := (isUnion_of_same ha).trans hunion
  induction b generalizing b' with
  | any =>
    obtain rfl := same_any_iff.1 hb
    exact isSubtype_any_right a'
  | union members ih =>
    obtain ⟨others, rfl, hforth, _⟩ := same_union_iff.1 hb
    rw [isSubtype_union_right hany hunion] at h
    rw [isSubtype_union_right hany' hunion']
    obtain ⟨m, hm, hsub⟩ := h
    obtain ⟨m', hm', hmm⟩ := hforth m hm
    exact ⟨m', hm', ih m hm hmm hsub⟩
  | _ => exact hplain _ _ rfl rfl hb h

theorem isSubtype_of_same {a a' b b' : FieldType} (ha : same a a' = true) (hb : same b b' = true)
    (h : isSubtype a b = true) : isSubtype a' b' = true := by
  induction a generalizing a' b b' with
  | any =>
    obtain rfl := same_any_iff.1 ha
    exact isSubtype_any_left b'
  | union members ih =>
    obtain ⟨others, rfl, _, hback⟩ := same_union_iff.1 ha
    rw [isSubtype_union_left] at h ⊢
    intro m' hm'
    obtain ⟨m, hm, hmm⟩ := hback m' hm'
    exact ih m hm hmm hb (h m hm)
  | primitive kind =>
    obtain rfl := same_primitive_iff.1 ha
    refine isSubtype_of_same_target rfl rfl ha (fun b b' hany hunion hb h => ?_) hb h
    obtain rfl := (isSubtype_primitive_iff hany hunion).1 h
    obtain rfl := same_primitive_iff.1 hb
    exact h
  | literal value =>
    obtain ⟨value', rfl, hv⟩ := same_literal_iff.1 ha
    refine isSubtype_of_same_target rfl rfl ha (fun b b' hany hunion hb h => ?_) hb h
    have hany' : b'.isAny = false := (isAny_of_same hb).trans hany
    have hunion' : b'.isUnion = false := (isUnion_of_same hb).trans hunion
    rw [isSubtype_literal_iff hany hunion] at h
    rw [isSubtype_literal_iff hany' hunion']
    rcases h with h | rfl
    · exact .inl (same_trans (same_symm ha) (same_trans h hb))
    · obtain rfl := same_primitive_iff.1 hb
      exact .inr (by rw [Literal.base_eq_of_same hv])
  | array element ih =>
    obtain ⟨element', rfl, he⟩ := same_array_iff.1 ha
    refine isSubtype_of_same_target rfl rfl ha (fun b b' hany hunion hb h => ?_) hb h
    obtain ⟨other, rfl, hsub⟩ := (isSubtype_array_iff hany hunion).1 h
    obtain ⟨other', rfl, ho⟩ := same_array_iff.1 hb
    exact (isSubtype_array_iff rfl rfl).2 ⟨other', rfl, ih he ho hsub⟩
  | map fields ih =>
    obtain ⟨fields', rfl, hf⟩ := same_map_iff.1 ha
    refine isSubtype_of_same_target rfl rfl ha (fun b b' hany hunion hb h => ?_) hb h
    obtain ⟨others, rfl, hsub⟩ := (isSubtype_map_iff hany hunion).1 h
    obtain ⟨others', rfl, ho⟩ := same_map_iff.1 hb
    refine (isSubtype_map_iff rfl rfl).2 ⟨others', rfl, fun field' hfield' => ?_⟩
    obtain ⟨field, hfield, hname, htype⟩ := exists_left_of_forall₂ ho hfield'
    obtain ⟨found, hfound, hle⟩ := hsub field hfield
    obtain ⟨found', hfound', hsame⟩ := lookup_of_sameFields hf hfound
    exact ⟨found', hname ▸ hfound', ih (field.1, found) (mem_of_lookup hfound) hsame htype hle⟩

theorem isSubtype_congr {a a' b b' : FieldType} (ha : same a a' = true) (hb : same b b' = true) :
    isSubtype a b = isSubtype a' b' := by
  rw [Bool.eq_iff_iff]
  exact ⟨isSubtype_of_same ha hb, isSubtype_of_same (same_symm ha) (same_symm hb)⟩

theorem members_of_same {a b : FieldType} (h : same a b = true) :
    SameMembers a.members b.members := by
  cases a with
  | union members =>
    obtain ⟨others, rfl, hm⟩ := same_union_iff.1 h
    exact hm
  | _ =>
    cases b with
    | union others => simp [same] at h
    | _ => simpa [SameMembers, members] using h

theorem mem_arrayElements_iff {t e : FieldType} (hany : t.isAny = false) :
    e ∈ t.arrayElements ↔ array e ∈ t.members := by
  have hfilter : ∀ {f : FieldType → Option FieldType} {ms : List FieldType},
      (∀ m, f m = some e ↔ array e = m) → (e ∈ ms.filterMap f ↔ array e ∈ ms) := by
    intro f ms hf
    simp only [List.mem_filterMap, hf, exists_eq_right']
  cases t with
  | any => cases hany
  | _ =>
    refine hfilter fun m => ?_
    cases m with
    | array element => exact ⟨fun h => congrArg array (Option.some.inj h).symm,
        fun h => congrArg some (array.inj h).symm⟩
    | _ => exact ⟨nofun, nofun⟩

theorem arrayElements_of_same {a b : FieldType} (h : same a b = true) :
    SameMembers a.arrayElements b.arrayElements := by
  cases hany : a.isAny with
  | true =>
    obtain rfl := isAny_iff.1 hany
    obtain rfl := same_any_iff.1 h
    exact ⟨fun e he => ⟨e, he, e.same_refl⟩, fun e he => ⟨e, he, e.same_refl⟩⟩
  | false =>
    have hany' : b.isAny = false := (isAny_of_same h).trans hany
    obtain ⟨hforth, hback⟩ := members_of_same h
    refine ⟨fun e he => ?_, fun e he => ?_⟩
    · obtain ⟨m, hm, hsame⟩ := hforth _ ((mem_arrayElements_iff hany).1 he)
      obtain ⟨other, rfl, hother⟩ := same_array_iff.1 hsame
      exact ⟨other, (mem_arrayElements_iff hany').2 hm, hother⟩
    · obtain ⟨m, hm, hsame⟩ := hback _ ((mem_arrayElements_iff hany').1 he)
      obtain ⟨other, rfl, hother⟩ := same_array_iff.1 (same_symm hsame)
      exact ⟨other, (mem_arrayElements_iff hany).2 hm, same_symm hother⟩

theorem overlaps_iff {a b : FieldType} :
    overlaps a b = true ↔
      ∃ l ∈ a.members, ∃ r ∈ b.members, isSubtype l r = true ∨ isSubtype r l = true := by
  simp only [overlaps, List.any_eq_true, Bool.or_eq_true]

theorem overlaps_of_same {a a' b b' : FieldType} (ha : same a a' = true) (hb : same b b' = true)
    (h : overlaps a b = true) : overlaps a' b' = true := by
  rw [overlaps_iff] at h ⊢
  obtain ⟨l, hl, r, hr, h⟩ := h
  obtain ⟨l', hl', hll⟩ := (members_of_same ha).1 l hl
  obtain ⟨r', hr', hrr⟩ := (members_of_same hb).1 r hr
  refine ⟨l', hl', r', hr', ?_⟩
  rwa [← isSubtype_congr hll hrr, ← isSubtype_congr hrr hll]

theorem overlaps_congr {a a' b b' : FieldType} (ha : same a a' = true) (hb : same b b' = true) :
    overlaps a b = overlaps a' b' := by
  rw [Bool.eq_iff_iff]
  exact ⟨overlaps_of_same ha hb, overlaps_of_same (same_symm ha) (same_symm hb)⟩

end FieldType
end SchemaAtlas
