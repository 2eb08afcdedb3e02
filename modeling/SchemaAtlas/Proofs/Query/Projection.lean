import SchemaAtlas.Proofs.Except
import SchemaAtlas.Proofs.FieldType.Fields
import SchemaAtlas.Proofs.Query.Reachable
import SchemaAtlas.Proofs.SchemaUnion
import SchemaAtlas.Proofs.Text.Splitting

/-!
# Projections

What a schema and a union of schemas keep when they are restricted to some of their fields. A field
path begins with the name of a top-level field; behind the restriction it leads where it led before,
if that field was kept and no top-level field has the whole path for its name.
-/
namespace SchemaAtlas

namespace Schema

variable {s : Schema} {names : List String}

theorem fieldNames_of_same {a b : Schema} (h : a.same b = true) : a.fieldNames = b.fieldNames := by
  have hfields : FieldType.SameFields a.fields b.fields := FieldType.sameFields_iff.1 h
  unfold FieldType.SameFields at hfields
  rw [fieldNames, fieldNames, Fields.names, Fields.names, ← List.forall₂_eq_eq_eq,
    List.forall₂_map_left_iff, List.forall₂_map_right_iff]
  exact hfields.imp fun _ _ hfield => hfield.1

theorem mem_fieldNames_restrictedTo {name : String} :
    name ∈ (s.restrictedTo names).fieldNames ↔ name ∈ names ∧ name ∈ s.fieldNames := by
  simp only [fieldNames, Fields.names, restrictedTo, List.mem_map, List.mem_filter,
    List.contains_iff_mem]
  constructor
  · rintro ⟨field, ⟨hfield, hname⟩, rfl⟩
    exact ⟨hname, field, hfield, rfl⟩
  · rintro ⟨hname, field, hfield, rfl⟩
    exact ⟨field, ⟨hfield, hname⟩, rfl⟩

theorem restrictedTo_restrictedTo {more : List String} (h : ∀ name ∈ more, name ∈ names) :
    (s.restrictedTo names).restrictedTo more = s.restrictedTo more := by
  rw [restrictedTo, restrictedTo, restrictedTo, List.filter_filter]
  congr 1
  refine List.filter_congr fun field _ => ?_
  rw [Bool.and_eq_left_iff_imp, List.contains_iff_mem, List.contains_iff_mem]
  exact h field.1

theorem same_restrictedTo {a b : Schema} (h : a.same b = true) (names : List String) :
    (a.restrictedTo names).same (b.restrictedTo names) = true := by
  have hfields : FieldType.SameFields a.fields b.fields := FieldType.sameFields_iff.1 h
  refine FieldType.sameFields_iff.2 (List.rel_filter (fun field other hfield => ?_) hfields)
  dsimp only
  rw [hfield.1]

/-! ### Field paths -/

theorem get?_eq_none_iff {fields : Fields} {name : String} :
    fields.get? name = none ↔ name ∉ fields.names :=
  lookup_eq_none_iff_not_mem

theorem get?_restrictedTo_of_mem {name : String} (hname : name ∈ names) :
    (s.restrictedTo names).fields.get? name = s.fields.get? name := by
  obtain ⟨fields⟩ := s
  change (fields.filter fun field => names.contains field.1).lookup name = fields.lookup name
  induction fields with
  | nil => rfl
  | cons field rest ih =>
    obtain ⟨other, type⟩ := field
    by_cases hother : name = other
    · subst hother
      rw [List.filter_cons, if_pos (List.contains_iff_mem.2 hname), List.lookup_cons_self,
        List.lookup_cons_self]
    · rw [Fields.lookup_cons_of_ne hother, ← ih, List.filter_cons]
      split
      · exact Fields.lookup_cons_of_ne hother _ _
      · rfl

theorem get?_restrictedTo_of_not_mem {name : String} (hname : name ∉ names) :
    (s.restrictedTo names).fields.get? name = none :=
  get?_eq_none_iff.2 fun h => hname (mem_fieldNames_restrictedTo.1 h).1

/-- No top-level field has a path with a dot for its name, so the path steps into a field. -/
def StepsInto (s : Schema) (path : String) : Prop := '.' ∈ path.toList → path ∉ s.fieldNames

/-- The name of the top-level field that a path begins with. -/
def rootOf (path : String) : String := (Text.split '.' path).headD path

theorem rootOf_of_not_dotted {path : String} (hpath : '.' ∉ path.toList) : rootOf path = path := by
  rw [rootOf, Text.split_of_not_mem hpath, List.headD_cons]

theorem fieldAt?_of_not_dotted {path : String} (hpath : '.' ∉ path.toList) :
    s.fieldAt? path = s.fields.get? path := by
  rw [fieldAt?, Text.split_of_not_mem hpath]
  split
  · rename_i type htype
    exact htype.symm
  · rename_i hnone
    exact hnone.symm

/-- A path that is the name of no field is looked up below the field that it begins with. -/
theorem fieldAt?_of_not_mem {path : String} (hpath : path ∉ s.fieldNames) :
    s.fieldAt? path = match Text.split '.' path with
      | [] | [_] => none
      | root :: rest => (s.fields.get? root).bind fun type => descend type rest := by
  rw [fieldAt?, get?_eq_none_iff.2 hpath]
  dsimp only
  match Text.split '.' path with
  | [] => rfl
  | [_] => rfl
  | root :: next :: rest =>
    dsimp only
    cases s.fields.get? root <;> rfl

/-- A restriction that keeps the field a path begins with does not change where the path leads. -/
theorem fieldAt?_restrictedTo {path : String} (hsteps : s.StepsInto path)
    (hroot : rootOf path ∈ names) : (s.restrictedTo names).fieldAt? path = s.fieldAt? path := by
  by_cases hdot : '.' ∈ path.toList
  · have hpath := hsteps hdot
    have hpath' : path ∉ (s.restrictedTo names).fieldNames := fun h =>
      hpath (mem_fieldNames_restrictedTo.1 h).2
    rw [fieldAt?_of_not_mem hpath, fieldAt?_of_not_mem hpath']
    rw [rootOf] at hroot
    split
    · rfl
    · rfl
    · rename_i root rest _ hsplit
      rw [hsplit, List.headD_cons] at hroot
      rw [get?_restrictedTo_of_mem hroot]
  · rw [rootOf_of_not_dotted hdot] at hroot
    rw [fieldAt?_of_not_dotted hdot, fieldAt?_of_not_dotted hdot, get?_restrictedTo_of_mem hroot]

/-- A path that leads somewhere behind a restriction begins with a field that was kept. -/
theorem rootOf_mem_of_hasField {path : String} (hsteps : s.StepsInto path)
    (h : (s.restrictedTo names).hasField path = true) : rootOf path ∈ names := by
  by_contra hroot
  have hnone : (s.restrictedTo names).fields.get? (rootOf path) = none :=
    get?_restrictedTo_of_not_mem hroot
  have hfield : (s.restrictedTo names).fieldAt? path = none := by
    by_cases hdot : '.' ∈ path.toList
    · have hpath' : path ∉ (s.restrictedTo names).fieldNames := fun h =>
        hsteps hdot (mem_fieldNames_restrictedTo.1 h).2
      rw [fieldAt?_of_not_mem hpath']
      rw [rootOf] at hnone
      split
      · rfl
      · rfl
      · rename_i root rest _ hsplit
        rw [hsplit, List.headD_cons] at hnone
        rw [hnone]
        rfl
    · rw [rootOf_of_not_dotted hdot] at hnone
      rw [fieldAt?_of_not_dotted hdot, hnone]
  rw [hasField, hfield] at h
  cases h

end Schema

/-! ### Predicates and equal schemas -/

theorem Operator.admits_of_same {operator : Operator} {c : Comparison} {test : FieldType → Bool}
    (h : operator.admits c = .ok test) {a b : FieldType} (hab : FieldType.same a b = true) :
    test a = test b := by
  have hoverlaps : ∀ {a b : FieldType}, FieldType.same a b = true →
      ∀ type : FieldType, a.overlaps type = b.overlaps type :=
    fun hab type => FieldType.overlaps_congr hab type.same_refl
  have helements : ∀ test : FieldType → Bool,
      (∀ e e', FieldType.same e e' = true → test e = test e') →
        a.arrayElements.any test = b.arrayElements.any test := fun test htest =>
    FieldType.any_congr_of_sameMembers (FieldType.arrayElements_of_same hab) htest
  cases operator with
  | hasField | notIn =>
    obtain rfl := Except.ok.inj h
    rfl
  | isIn =>
    obtain rfl := Except.ok.inj h
    simp only [hoverlaps hab]
  | arrayContainsAny =>
    obtain rfl := Except.ok.inj h
    exact helements _ fun e e' he => by simp only [hoverlaps he]
  | notEqual =>
    obtain ⟨single, -, rfl⟩ := exists_of_map_eq_ok h
    dsimp only
    rw [FieldType.isSubtype_congr hab single.same_refl]
  | arrayContains =>
    obtain ⟨single, -, rfl⟩ := exists_of_map_eq_ok h
    exact helements _ fun e e' he => hoverlaps he single
  | _ =>
    obtain ⟨single, -, rfl⟩ := exists_of_map_eq_ok h
    exact hoverlaps hab single

namespace Predicate

theorem admits_of_same_type (p : Predicate) {a b : FieldType} (hab : FieldType.same a b = true) :
    p.admits a = p.admits b := by
  unfold admits
  split
  · rename_i test htest
    exact Operator.admits_of_same htest hab
  · rfl

/-- A predicate does not tell schemas apart that are the same. -/
theorem passedBy_of_same_schema (p : Predicate) {a b : Schema} (hab : a.same b = true) :
    p.passedBy a = p.passedBy b := by
  unfold passedBy
  split
  · rename_i name _
    rw [SchemaUnion.passes, SchemaUnion.passes]
    cases ha : a.fieldAt? name with
    | some type =>
      obtain ⟨type', hb, hsame⟩ := Schema.fieldAt?_of_same hab ha
      rw [hb]
      exact p.admits_of_same_type hsame
    | none =>
      cases hb : b.fieldAt? name with
      | none => rfl
      | some type =>
        obtain ⟨type', ha', -⟩ := Schema.fieldAt?_of_same (Schema.same_symm hab) hb
        cases ha.symm.trans ha'
  · rfl

end Predicate

namespace SchemaUnion

/-! ### What operations hold -/

theorem mem_ordered {u : SchemaUnion} {v : Variant} : v ∈ u.ordered ↔ v ∈ u.variants :=
  (sortBy_perm _ _).mem_iff

theorem hasOrigin_mapped {change : Schema → Schema} {u : SchemaUnion} {s : Schema} {origin : String} :
    (u.mapped change).HasOrigin s origin ↔
      ∃ v ∈ u.variants, (change v.schema).same s = true ∧ origin ∈ v.origins := by
  cases u with
  | generic => simp [mapped, HasOrigin, Sourced, variants]
  | candidates vs d =>
    rw [mapped, HasOrigin, variants, sourced_collect]
    constructor
    · rintro (⟨v, hv, -⟩ | ⟨v, hv, hsame, horigin⟩)
      · exact absurd hv List.not_mem_nil
      · obtain ⟨w, hw, rfl⟩ := List.mem_map.1 hv
        exact ⟨w, mem_ordered.1 hw, hsame, horigin⟩
    · rintro ⟨v, hv, hsame, horigin⟩
      exact .inr ⟨_, List.mem_map_of_mem (mem_ordered.2 hv), hsame, horigin⟩

theorem hasOrigin_filtered {keep : Schema → Bool} {u : SchemaUnion} {s : Schema} {origin : String}
    (hkeep : ∀ a b : Schema, a.same b = true → keep a = keep b) :
    (u.filtered keep).HasOrigin s origin ↔ keep s = true ∧ u.HasOrigin s origin := by
  rw [HasOrigin, variants_filtered]
  constructor
  · rintro ⟨v, hv, hsame, horigin⟩
    obtain ⟨hv, hpass⟩ := List.mem_filter.1 hv
    exact ⟨hkeep _ _ hsame ▸ hpass, v, hv, hsame, horigin⟩
  · rintro ⟨hpass, v, hv, hsame, horigin⟩
    exact ⟨v, List.mem_filter.2 ⟨hv, (hkeep _ _ hsame).trans hpass⟩, hsame, horigin⟩

theorem declaredSchemas_mapped (change : Schema → Schema) (u : SchemaUnion) :
    (u.mapped change).declaredSchemas = (u.mapped change).schemas := by
  cases u <;> rfl

theorem isGeneric_mapped (change : Schema → Schema) (u : SchemaUnion) :
    (u.mapped change).isGeneric = u.isGeneric := by
  cases u <;> rfl

/-- Every variant has an origin. -/
def Originated (u : SchemaUnion) : Prop := ∀ v ∈ u.variants, ∃ o, o ∈ v.origins

namespace Originated

variable {u w : SchemaUnion}

theorem ofPairs (pairs : List (Schema × String)) : (ofPairs pairs).Originated := by
  refine origins_collect (fun v hv => ?_) nofun
  obtain ⟨pair, _, rfl⟩ := List.mem_map.1 hv
  exact ⟨pair.2, List.mem_singleton.2 rfl⟩

theorem union (hu : u.Originated) (hw : w.Originated) : (u.union w).Originated := by
  unfold Originated
  rcases variants_union_cases u w with h | h
  · rw [h]
    exact nofun
  · rw [h]
    exact origins_collect hw hu

theorem filtered (hu : u.Originated) (keep : Schema → Bool) : (u.filtered keep).Originated := by
  intro v hv
  rw [variants_filtered] at hv
  exact hu v (List.mem_of_mem_filter hv)

theorem mapped (hu : u.Originated) (change : Schema → Schema) : (u.mapped change).Originated := by
  cases u with
  | generic => exact nofun
  | candidates vs d =>
    refine origins_collect (fun v hv => ?_) nofun
    obtain ⟨former, hformer, rfl⟩ := List.mem_map.1 hv
    exact hu former (mem_ordered.1 hformer)

end Originated

theorem Reachable.originated {u : SchemaUnion} (h : u.Reachable) : u.Originated := by
  induction h with
  | empty => exact nofun
  | generic => exact nofun
  | ofPairs pairs => exact .ofPairs pairs
  | union hu hw ihu ihw => exact ihu.union ihw
  | filtered hu keep ih => exact ih.filtered keep
  | mapped hu change ih => exact ih.mapped change
  | narrow hu h ih =>
    obtain rfl | rfl | ⟨keep, rfl⟩ := narrow_cases h
    · exact ih
    · exact nofun
    · exact ih.filtered keep
  | project hu h ih =>
    obtain rfl | rfl | ⟨change, rfl⟩ := project_cases h
    · exact ih
    · exact nofun
    · exact ih.mapped change

/-- A reachable union holds a schema exactly if it holds it with some origin. -/
theorem Reachable.contains_iff {u : SchemaUnion} (h : u.Reachable) {s : Schema} :
    u.contains s = true ↔ ∃ origin, u.HasOrigin s origin := by
  rw [SchemaUnion.contains_iff]
  constructor
  · rintro ⟨v, hv, hsame⟩
    obtain ⟨origin, horigin⟩ := h.originated v hv
    exact ⟨origin, v, hv, hsame, horigin⟩
  · rintro ⟨_, v, hv, hsame, -⟩
    exact ⟨v, hv, hsame⟩

/-- The same schemas with the same origins, or any shape in both. -/
structure Agrees (u w : SchemaUnion) : Prop where
  isGeneric : u.isGeneric = w.isGeneric
  contains : ∀ s, u.contains s = true ↔ w.contains s = true
  hasOrigin : ∀ s origin, u.HasOrigin s origin ↔ w.HasOrigin s origin

theorem Agrees.refl (u : SchemaUnion) : u.Agrees u :=
  ⟨rfl, fun _ => .rfl, fun _ _ => .rfl⟩

theorem Reachable.agrees {u w : SchemaUnion} (hu : u.Reachable) (hw : w.Reachable)
    (hgeneric : u.isGeneric = w.isGeneric)
    (horigin : ∀ s origin, u.HasOrigin s origin ↔ w.HasOrigin s origin) : u.Agrees w := by
  refine ⟨hgeneric, fun s => ?_, horigin⟩
  rw [hu.contains_iff, hw.contains_iff]
  exact exists_congr (horigin s)

/-! ### Selections -/

theorem mem_declaredFieldNames {u : SchemaUnion} {name : String} :
    name ∈ u.declaredFieldNames ↔ ∃ s ∈ u.declaredSchemas, name ∈ s.fieldNames := by
  rw [declaredFieldNames, mem_sortedDistinct, List.mem_flatMap]

/-- The value is the name of a top-level field of some schema before any filtering. -/
def DeclaresName (u : SchemaUnion) (field : Value) : Prop :=
  ∃ name, field = .text name ∧ name ∈ u.declaredFieldNames

theorem declaredSelection?_eq_some {u : SchemaUnion} {fields : List Value} {names : List String}
    (h : u.declaredSelection? fields = some names) :
    fields = names.map .text ∧ ∀ name ∈ names, name ∈ u.declaredFieldNames := by
  induction fields generalizing names with
  | nil =>
    obtain rfl := Option.some.inj h
    exact ⟨rfl, nofun⟩
  | cons field rest ih =>
    cases field with
    | text name =>
      rw [declaredSelection?] at h
      split at h
      · rename_i hname
        obtain ⟨others, hothers, rfl⟩ := Option.map_eq_some_iff.1 h
        obtain ⟨hrest, hall⟩ := ih hothers
        refine ⟨by rw [hrest, List.map_cons], List.forall_mem_cons.2 ⟨?_, hall⟩⟩
        exact List.contains_iff_mem.1 hname
      · cases h
    | _ => cases h

theorem declaredSelection?_map_text {u : SchemaUnion} {names : List String}
    (h : ∀ name ∈ names, name ∈ u.declaredFieldNames) :
    u.declaredSelection? (names.map .text) = some names := by
  induction names with
  | nil => rfl
  | cons name rest ih =>
    obtain ⟨hname, hrest⟩ := List.forall_mem_cons.1 h
    rw [List.map_cons, declaredSelection?, if_pos (List.contains_iff_mem.2 hname), ih hrest]
    rfl

/-- What a union declares depends on its declared schemas alone. -/
theorem declares_congr {u w : SchemaUnion} (h : u.declaredSchemas = w.declaredSchemas)
    {field : Value} : u.Declares field ↔ w.Declares field := by
  rw [Declares, Declares, h]

theorem declaredFieldNames_congr {u w : SchemaUnion} (h : u.declaredSchemas = w.declaredSchemas) :
    u.declaredFieldNames = w.declaredFieldNames := by
  rw [declaredFieldNames, declaredFieldNames, h]

theorem declaredSelection?_congr {u w : SchemaUnion} (h : u.declaredSchemas = w.declaredSchemas)
    (fields : List Value) : u.declaredSelection? fields = w.declaredSelection? fields := by
  induction fields with
  | nil => rfl
  | cons field rest ih =>
    cases field with
    | text name => rw [declaredSelection?, declaredSelection?, declaredFieldNames_congr h, ih]
    | _ => rfl

theorem select_of_unfilterable {u : SchemaUnion} (hu : u.isUnfilterable = true)
    (fields : List Value) : u.select fields = u := by
  rw [select, if_pos hu]

theorem select_of_none {u : SchemaUnion} (hu : u.isUnfilterable = false) {fields : List Value}
    (h : u.declaredSelection? fields = none) : u.select fields = generic := by
  rw [select, hu, h]
  rfl

theorem select_of_some {u : SchemaUnion} (hu : u.isUnfilterable = false) {fields : List Value}
    {names : List String} (h : u.declaredSelection? fields = some names) :
    u.select fields = u.mapped (·.restrictedTo names) := by
  rw [select, hu, h]
  rfl

theorem project_eq {u : SchemaUnion} {selection : Value} {fields : List Value}
    (h : selection.selection? = some fields) : u.project selection = .ok (u.select fields) := by
  cases hu : u.isUnfilterable with
  | true => rw [project, if_pos hu, select_of_unfilterable hu]
  | false =>
    rw [project, hu, h]
    rfl

theorem project_tuple (u : SchemaUnion) {fields : List Value}
    (h : Value.allHashable fields = true) :
    u.project (.sequence .tuple fields) = .ok (u.select fields) := by
  refine project_eq ?_
  rw [Value.selection?, if_pos h]

theorem eq_false_of_isUnfilterable_eq_false {u : SchemaUnion} (hu : u.isUnfilterable = false) :
    u.isGeneric = false :=
  (isUnfilterable_eq_false_iff.1 hu).1

/-! ### Restrictions -/

/--
The union holds the schemas of another one restricted to some names, with their origins, and declares
no more than restrictions of what the other one declares.
-/
structure RestrictionOf (u whole : SchemaUnion) (names : List String) : Prop where
  isGeneric : u.isGeneric = false
  hasOrigin : ∀ s origin, u.HasOrigin s origin ↔
    ∃ v ∈ whole.variants, (v.schema.restrictedTo names).same s = true ∧ origin ∈ v.origins
  declared : ∀ d ∈ u.declaredSchemas, ∃ s ∈ whole.declaredSchemas,
    (s.restrictedTo names).same d = true

/-- A union that was not filtered since declares what it holds. -/
theorem restrictionOf_mapped {u whole : SchemaUnion} {change : Schema → Schema} {names : List String}
    (hu : u.isGeneric = false) (hwhole : whole.Rooted) (horiginated : u.Originated)
    (hasOrigin : ∀ s origin, (u.mapped change).HasOrigin s origin ↔
      ∃ v ∈ whole.variants, (v.schema.restrictedTo names).same s = true ∧ origin ∈ v.origins) :
    (u.mapped change).RestrictionOf whole names := by
  refine ⟨(isGeneric_mapped change u).trans hu, hasOrigin, fun d hd => ?_⟩
  rw [declaredSchemas_mapped] at hd
  obtain ⟨w, hw, rfl⟩ := List.mem_map.1 hd
  obtain ⟨origin, horigin⟩ := horiginated.mapped change w hw
  obtain ⟨v, hv, hsame, -⟩ := (hasOrigin w.schema origin).1 ⟨w, hw, w.schema.same_refl, horigin⟩
  obtain ⟨s, hs, hsv⟩ := hwhole v hv
  exact ⟨s, hs, Schema.same_trans (Schema.same_restrictedTo hsv names) hsame⟩

namespace RestrictionOf

variable {u whole : SchemaUnion} {names : List String}

theorem ofMapped (hwhole : whole.isGeneric = false) (hrooted : whole.Rooted)
    (horiginated : whole.Originated) (names : List String) :
    (whole.mapped (·.restrictedTo names)).RestrictionOf whole names :=
  restrictionOf_mapped hwhole hrooted horiginated fun _ _ => hasOrigin_mapped

theorem mem_names (h : u.RestrictionOf whole names) {name : String}
    (hname : name ∈ u.declaredFieldNames) : name ∈ names ∧ name ∈ whole.declaredFieldNames := by
  obtain ⟨d, hd, hname⟩ := mem_declaredFieldNames.1 hname
  obtain ⟨s, hs, hsame⟩ := h.declared d hd
  rw [← Schema.fieldNames_of_same hsame, Schema.mem_fieldNames_restrictedTo] at hname
  exact ⟨hname.1, mem_declaredFieldNames.2 ⟨s, hs, hname.2⟩⟩

theorem rootOf_mem (h : u.RestrictionOf whole names) {path : String}
    (hsteps : ∀ s ∈ whole.declaredSchemas, s.StepsInto path) (hpath : u.Declares (.text path)) :
    Schema.rootOf path ∈ names ∧ whole.Declares (.text path) := by
  obtain ⟨_, hname, d, hd, hfield⟩ := hpath
  obtain rfl := Value.text.inj hname
  obtain ⟨s, hs, hsame⟩ := h.declared d hd
  have hrestricted := Schema.hasField_of_same (Schema.same_symm hsame) hfield
  have hroot := Schema.rootOf_mem_of_hasField (hsteps s hs) hrestricted
  rw [Schema.hasField, Schema.fieldAt?_restrictedTo (hsteps s hs) hroot] at hrestricted
  exact ⟨hroot, _, rfl, s, hs, hrestricted⟩

/-- A predicate on a path that begins with a kept field does not see the restriction. -/
theorem filtered (h : u.RestrictionOf whole names) (hrooted : whole.Rooted) {p : Predicate}
    {path : String} (hfield : p.field = .text path)
    (hsteps : ∀ s ∈ whole.declaredSchemas, s.StepsInto path) (hroot : Schema.rootOf path ∈ names) :
    (u.filtered p.passedBy).RestrictionOf (whole.filtered p.passedBy) names := by
  have hpassed : ∀ v ∈ whole.variants,
      p.passedBy (v.schema.restrictedTo names) = p.passedBy v.schema := by
    intro v hv
    obtain ⟨s, hs, hsame⟩ := hrooted v hv
    have hstepsInto : v.schema.StepsInto path := by
      intro hdot
      rw [← Schema.fieldNames_of_same hsame]
      exact hsteps s hs hdot
    rw [Predicate.passedBy, Predicate.passedBy, hfield]
    dsimp only
    rw [passes, passes, Schema.fieldAt?_restrictedTo hstepsInto hroot]
  refine ⟨(isGeneric_filtered _ u).trans h.isGeneric, fun s origin => ?_, fun d hd => ?_⟩
  · rw [hasOrigin_filtered fun _ _ hab => p.passedBy_of_same_schema hab, h.hasOrigin,
      variants_filtered]
    constructor
    · rintro ⟨hpass, v, hv, hsame, horigin⟩
      refine ⟨v, List.mem_filter.2 ⟨hv, ?_⟩, hsame, horigin⟩
      rw [← hpassed v hv, p.passedBy_of_same_schema hsame]
      exact hpass
    · rintro ⟨v, hv, hsame, horigin⟩
      obtain ⟨hv, hpass⟩ := List.mem_filter.1 hv
      refine ⟨?_, v, hv, hsame, horigin⟩
      rw [← p.passedBy_of_same_schema hsame, hpassed v hv]
      exact hpass
  · rw [declaredSchemas_filtered] at hd ⊢
    exact h.declared d hd

/-- Restricted once more, to some of the names, the union is the narrower restriction. -/
theorem mapped (h : u.RestrictionOf whole names) (hrooted : whole.Rooted) (hu : u.Originated)
    {more : List String} (hmore : ∀ name ∈ more, name ∈ names) :
    (u.mapped (·.restrictedTo more)).RestrictionOf whole more := by
  refine restrictionOf_mapped h.isGeneric hrooted hu fun s origin => ?_
  rw [hasOrigin_mapped]
  constructor
  · rintro ⟨w, hw, hsame, horigin⟩
    obtain ⟨v, hv, hvw, horigin⟩ := (h.hasOrigin w.schema origin).1 ⟨w, hw, w.schema.same_refl, horigin⟩
    have hrestricted := Schema.same_restrictedTo hvw more
    rw [Schema.restrictedTo_restrictedTo hmore] at hrestricted
    exact ⟨v, hv, Schema.same_trans hrestricted hsame, horigin⟩
  · rintro ⟨v, hv, hsame, horigin⟩
    obtain ⟨w, hw, hwv, horigin⟩ := (h.hasOrigin _ origin).2 ⟨v, hv, Schema.same_refl _, horigin⟩
    have hrestricted := Schema.same_restrictedTo hwv more
    rw [Schema.restrictedTo_restrictedTo hmore] at hrestricted
    exact ⟨w, hw, Schema.same_trans hrestricted hsame, horigin⟩

theorem agrees (h : u.RestrictionOf whole names) (hu : u.Reachable) (hwhole : whole.Reachable)
    (hgeneric : whole.isGeneric = false) : u.Agrees (whole.mapped (·.restrictedTo names)) := by
  refine hu.agrees (hwhole.mapped _) ?_ fun s origin => ?_
  · rw [h.isGeneric, isGeneric_mapped, hgeneric]
  · rw [h.hasOrigin, hasOrigin_mapped]

/--
Where no path could be taken for the name of one field, a predicate is applied to the whole and to the
restriction alike: both are filtered, or both are widened.
-/
theorem narrow (h : u.RestrictionOf whole names) (hrooted : whole.Rooted)
    (hwhole : whole.isUnfilterable = false) (hfound : u.isUnfilterable = false) {p : Predicate}
    (he : p.Evaluable)
    (hsteps : ∀ path, p.field = .text path → ∀ s ∈ whole.declaredSchemas, s.StepsInto path)
    (hfield : whole.Declares p.field → u.Declares p.field) {v w : SchemaUnion}
    (hv : u.narrow p = .ok v) (hw : whole.narrow p = .ok w) :
    w = whole.filtered p.passedBy ∧ v.RestrictionOf w names ∨ w = generic ∧ v = generic := by
  by_cases hp : whole.Declares p.field
  · obtain ⟨path, hpath, -⟩ := id hp
    obtain ⟨hroot, -⟩ := h.rootOf_mem (hsteps path hpath) (hpath ▸ hfield hp)
    rw [narrow_of_declares hwhole he hp] at hw
    rw [narrow_of_declares hfound he (hfield hp)] at hv
    obtain rfl := Except.ok.inj hw
    obtain rfl := Except.ok.inj hv
    exact .inl ⟨rfl, h.filtered hrooted hpath (hsteps path hpath) hroot⟩
  · -- a restriction declares no path that the whole does not
    have hnot : ¬ u.Declares p.field := by
      intro hd
      obtain ⟨path, hpath, -⟩ := id hd
      rw [hpath] at hd hp
      exact hp (h.rootOf_mem (hsteps path hpath) hd).2
    rw [narrow_of_not_declares hwhole hp] at hw
    rw [narrow_of_not_declares hfound hnot] at hv
    exact .inr ⟨(Except.ok.inj hw).symm, (Except.ok.inj hv).symm⟩

/-- A selection from a restriction that kept what is selected is one from the whole. -/
theorem select (h : u.RestrictionOf whole names) (hrooted : whole.Rooted) (horiginated : u.Originated)
    (hfound : u.isUnfilterable = false) {fields : List Value}
    (hkeeps : ∀ field ∈ fields, whole.DeclaresName field → u.DeclaresName field) :
    whole.declaredSelection? fields = none ∧ u.select fields = generic ∨
      ∃ more, whole.declaredSelection? fields = some more ∧
        (u.select fields).RestrictionOf whole more := by
  cases hmore : whole.declaredSelection? fields with
  | some more =>
    obtain ⟨rfl, hall⟩ := declaredSelection?_eq_some hmore
    have hkept : ∀ name ∈ more, name ∈ u.declaredFieldNames := by
      intro name hname
      obtain ⟨_, heq, hdeclares⟩ :=
        hkeeps (.text name) (List.mem_map_of_mem hname) ⟨name, rfl, hall name hname⟩
      obtain rfl := Value.text.inj heq
      exact hdeclares
    rw [select_of_some hfound (declaredSelection?_map_text hkept)]
    exact .inr ⟨more, rfl, h.mapped hrooted horiginated fun name hname =>
      (h.mem_names (hkept name hname)).1⟩
  | none =>
    have hnone : u.declaredSelection? fields = none := by
      cases hother : u.declaredSelection? fields with
      | none => rfl
      | some others =>
        obtain ⟨rfl, hall⟩ := declaredSelection?_eq_some hother
        rw [declaredSelection?_map_text fun name hname =>
          (h.mem_names (hall name hname)).2] at hmore
        cases hmore
    exact .inl ⟨rfl, select_of_none hfound hnone⟩

end RestrictionOf

end SchemaUnion
end SchemaAtlas
