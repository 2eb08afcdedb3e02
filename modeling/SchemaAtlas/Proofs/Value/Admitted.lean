import SchemaAtlas.Proofs.FieldType.Fields
import SchemaAtlas.Proofs.FieldType.Subtyping
import SchemaAtlas.Value.Inferred

/-!
# The values that a type admits

What a type means: the values that a field of this type can have. A subtype in which `any` does not
occur admits no other values. The inferred type of a value is below every type that admits the value,
so comparing types never misses a value. For leaf values, which are those without parts, a type that is
related to the inferred type in either direction does admit the value. Geopoints and references are
objects of the store, of which no value here is one.
-/
namespace SchemaAtlas

namespace Value

/-- The kind of a leaf value. Containers and unknown objects have none. -/
def kind? : Value → Option Primitive
  | null => some .null
  | boolean _ => some .boolean
  | number _ => some .number
  | text _ => some .string
  | bytes _ _ => some .bytes
  | date _ | moment _ => some .timestamp
  | _ => none

def IsLeaf (v : Value) : Prop := v.kind?.isSome = true

/--
The values that queries are made of: no undefined number, no unknown object, no type as a value, and
mappings have distinct texts as keys.
-/
inductive Plain : Value → Prop
  | null : Plain null
  | boolean (b : Bool) : Plain (boolean b)
  | number {n : Number} (h : n.quantity ≠ .undefined) : Plain (number n)
  | text (s : String) : Plain (text s)
  | bytes (data : List Nat) (mutable : Bool) : Plain (bytes data mutable)
  | date (d : Date) : Plain (date d)
  | moment (m : Moment) : Plain (moment m)
  | sequence {kind : SequenceKind} {items : List Value} (h : ∀ item ∈ items, Plain item) :
    Plain (sequence kind items)
  | set {members : List Value} (h : ∀ member ∈ members, Plain member) : Plain (set members)
  | path (p : Path) : Plain (path p)
  | mapping {entries : List (Value × Value)} (hkeys : ∀ entry ∈ entries, entry.1.isText = true)
    (hdistinct : (entries.map (·.1.nameText)).Nodup) (h : ∀ entry ∈ entries, Plain entry.2) :
    Plain (mapping entries)

end Value

namespace Literal

/-- The literal's value is the given one, numbers being compared as quantities. -/
def standsFor : Literal → Value → Bool
  | text a, .text b => a == b
  | number a, .number b => a.same b
  | boolean a, .boolean b => a == b
  | _, _ => false

theorem standsFor_of_same {a b : Literal} {v : Value} (hab : a.same b = true)
    (h : a.standsFor v = true) : b.standsFor v = true := by
  cases a with
  | text s =>
    cases b with
    | text other =>
      obtain rfl : s = other := eq_of_beq hab
      exact h
    | _ => cases hab
  | number n =>
    cases b with
    | number other =>
      cases v with
      | number m =>
        have hab := Number.same_iff.1 hab
        exact Number.same_iff.2 (hab.symm.trans (Number.same_iff.1 h))
      | _ => cases h
    | _ => cases hab
  | boolean c =>
    cases b with
    | boolean other =>
      obtain rfl : c = other := eq_of_beq hab
      exact h
    | _ => cases hab

theorem kind?_of_standsFor {l : Literal} {v : Value} (h : l.standsFor v = true) :
    v.kind? = some l.base := by
  cases l <;> cases v <;> first | rfl | cases h

end Literal

namespace FieldType

mutual

/--
A value is of the type: of the primitive's kind, equal to the literal, a sequence of items of the
element type, a mapping with text keys that has a value of its type for every listed field, or of the
type of some member. Every value is of type `any`.
-/
def Admits : FieldType → Value → Prop
  | any, _ => True
  | primitive kind, v => v.kind? = some kind
  | literal value, v => value.standsFor v = true
  | array element, .sequence _ items => ∀ item ∈ items, Admits element item
  | map fields, .mapping entries =>
    (∀ entry ∈ entries, entry.1.isText = true) ∧ AdmitsFields fields entries
  | union members, v => AdmitsSome members v
  | _, _ => False

def AdmitsFields : List (String × FieldType) → List (Value × Value) → Prop
  | [], _ => True
  | (name, type) :: rest, entries =>
    (∃ w, (.text name, w) ∈ entries ∧ Admits type w) ∧ AdmitsFields rest entries

def AdmitsSome : List FieldType → Value → Prop
  | [], _ => False
  | type :: rest, v => Admits type v ∨ AdmitsSome rest v

end

theorem admits_array_iff {element : FieldType} {v : Value} :
    Admits (array element) v ↔
      ∃ kind items, v = .sequence kind items ∧ ∀ item ∈ items, Admits element item := by
  cases v <;> simp [Admits]

theorem admitsFields_iff {fields : List (String × FieldType)} {entries : List (Value × Value)} :
    AdmitsFields fields entries ↔
      ∀ field ∈ fields, ∃ w, (.text field.1, w) ∈ entries ∧ Admits field.2 w := by
  induction fields with
  | nil => simp [AdmitsFields]
  | cons field rest ih => rw [AdmitsFields, ih, List.forall_mem_cons]

theorem admits_map_iff {fields : List (String × FieldType)} {v : Value} :
    Admits (map fields) v ↔
      ∃ entries, v = .mapping entries ∧ (∀ entry ∈ entries, entry.1.isText = true) ∧
        ∀ field ∈ fields, ∃ w, (.text field.1, w) ∈ entries ∧ Admits field.2 w := by
  cases v <;> simp [Admits, admitsFields_iff]

theorem admitsSome_iff {types : List FieldType} {v : Value} :
    AdmitsSome types v ↔ ∃ t ∈ types, Admits t v := by
  induction types with
  | nil => simp [AdmitsSome]
  | cons t rest ih => rw [AdmitsSome, ih, List.exists_mem_cons_iff]

theorem admits_union_iff {members : List FieldType} {v : Value} :
    Admits (union members) v ↔ ∃ m ∈ members, Admits m v := by
  rw [Admits, admitsSome_iff]

theorem admits_iff_members {t : FieldType} {v : Value} :
    Admits t v ↔ ∃ m ∈ t.members, Admits m v := by
  cases t with
  | union members => exact admits_union_iff
  | _ => simp [members]

/-- The type `any` occurs nowhere in the type. -/
inductive AnyFree : FieldType → Prop
  | primitive (kind : Primitive) : AnyFree (.primitive kind)
  | literal (value : Literal) : AnyFree (.literal value)
  | array {element : FieldType} (h : AnyFree element) : AnyFree (.array element)
  | map {fields : List (String × FieldType)} (h : ∀ field ∈ fields, AnyFree field.2) :
    AnyFree (.map fields)
  | union {members : List FieldType} (h : ∀ m ∈ members, AnyFree m) : AnyFree (.union members)

/--
A meaning of types as sets of values. It takes no notice of how a literal is written, literals are of
their base, arrays and maps grow with the types in them, and a union is what its members are.
-/
structure Meaning {α : Type} (of : FieldType → α → Prop) : Prop where
  any (v : α) : of .any v
  literal {a b : Literal} {v : α} (h : a.same b = true) (hv : of (.literal a) v) :
    of (.literal b) v
  base {a : Literal} {v : α} (hv : of (.literal a) v) : of (.primitive a.base) v
  array {a b : FieldType} {v : α} (h : ∀ w, of a w → of b w) (hv : of (.array a) v) :
    of (.array b) v
  map {fields others : List (String × FieldType)} {v : α}
    (h : ∀ field ∈ others, ∃ found, (field.1, found) ∈ fields ∧ ∀ w, of found w → of field.2 w)
    (hv : of (.map fields) v) : of (.map others) v
  union {members : List FieldType} {v : α} : of (.union members) v ↔ ∃ m ∈ members, of m v

namespace Meaning

variable {α : Type} {of : FieldType → α → Prop} (hof : Meaning of)

include hof

/--
What holds of the targets that are neither unions nor `any` holds of all targets: they have the
values of a type below them.
-/
theorem of_isSubtype_target {a : FieldType} {v : α} (hany : a.isAny = false)
    (hunion : a.isUnion = false)
    (hplain : ∀ b, b.isAny = false → b.isUnion = false → isSubtype a b = true → of b v)
    {b : FieldType} (h : isSubtype a b = true) : of b v := by
  induction b with
  | any => exact hof.any v
  | union members ih =>
    obtain ⟨m, hm, hsub⟩ := (isSubtype_union_right hany hunion).1 h
    exact hof.union.2 ⟨m, hm, ih m hm hsub⟩
  | _ => exact hplain _ rfl rfl h

/-- Every value of a type in which `any` does not occur is a value of the types above. -/
theorem of_isSubtype {a b : FieldType} (ha : a.AnyFree) (h : isSubtype a b = true) {v : α}
    (hv : of a v) : of b v := by
  induction ha generalizing b v with
  | union hmembers ih =>
    obtain ⟨m, hm, hv⟩ := hof.union.1 hv
    exact ih m hm (isSubtype_union_left.1 h m hm) hv
  | primitive kind =>
    refine hof.of_isSubtype_target rfl rfl (fun b hany hunion h => ?_) h
    obtain rfl := (isSubtype_primitive_iff hany hunion).1 h
    exact hv
  | literal value =>
    refine hof.of_isSubtype_target rfl rfl (fun b hany hunion h => ?_) h
    rcases (isSubtype_literal_iff hany hunion).1 h with h | rfl
    · obtain ⟨other, rfl, hsame⟩ := same_literal_iff.1 h
      exact hof.literal hsame hv
    · exact hof.base hv
  | array hitem ih =>
    refine hof.of_isSubtype_target rfl rfl (fun b hany hunion h => ?_) h
    obtain ⟨other, rfl, hsub⟩ := (isSubtype_array_iff hany hunion).1 h
    exact hof.array (fun w hw => ih hsub hw) hv
  | map hfields ih =>
    refine hof.of_isSubtype_target rfl rfl (fun b hany hunion h => ?_) h
    obtain ⟨others, rfl, hsub⟩ := (isSubtype_map_iff hany hunion).1 h
    refine hof.map (fun field hfield => ?_) hv
    obtain ⟨found, hfound, hle⟩ := hsub field hfield
    exact ⟨found, mem_of_lookup hfound, fun w hw => ih _ (mem_of_lookup hfound) hle hw⟩

end Meaning

theorem meaning_admits : Meaning Admits where
  any _ := trivial
  literal h hv := Literal.standsFor_of_same h hv
  base hv := Literal.kind?_of_standsFor hv
  array h hv := by
    obtain ⟨kind, items, rfl, hitems⟩ := admits_array_iff.1 hv
    exact admits_array_iff.2 ⟨kind, items, rfl, fun item hitem => h item (hitems item hitem)⟩
  map h hv := by
    obtain ⟨entries, rfl, hkeys, hentries⟩ := admits_map_iff.1 hv
    refine admits_map_iff.2 ⟨entries, rfl, hkeys, fun field hfield => ?_⟩
    obtain ⟨found, hfound, hmore⟩ := h field hfield
    obtain ⟨w, hw, hadmits⟩ := hentries _ hfound
    exact ⟨w, hw, hmore w hadmits⟩
  union := admits_union_iff

theorem AnyFree.admits_of_isSubtype {a b : FieldType} (ha : a.AnyFree)
    (h : isSubtype a b = true) {v : Value} (hv : a.Admits v) : b.Admits v :=
  meaning_admits.of_isSubtype ha h hv

theorem isSubtype_iff_members {t target : FieldType} :
    isSubtype t target = true ↔ ∀ m ∈ t.members, isSubtype m target = true := by
  cases t with
  | union members => exact isSubtype_union_left
  | _ => simp [members]

theorem isSubtype_ofMembers_iff {members : List FieldType} {target : FieldType} :
    isSubtype (ofMembers members) target = true ↔ ∀ m ∈ members, isSubtype m target = true := by
  unfold ofMembers
  split
  · rw [List.forall_mem_singleton]
  · exact isSubtype_union_left

theorem isSubtype_unionOf_left {types : List FieldType} {target : FieldType}
    (h : ∀ t ∈ types, isSubtype t target = true) : isSubtype (unionOf types) target = true := by
  unfold unionOf
  split
  · exact isSubtype_any_left target
  · refine isSubtype_ofMembers_iff.2 fun m hm => ?_
    obtain ⟨t, ht, hm⟩ := List.mem_flatMap.1 (mem_of_mem_distinctBy hm)
    exact isSubtype_iff_members.1 (h t ht) m hm

/-- A union of types other than `any` is below a target exactly if all of them are. -/
theorem isSubtype_unionOf_iff {types : List FieldType} (hany : ∀ t ∈ types, t.isAny = false)
    {target : FieldType} :
    isSubtype (unionOf types) target = true ↔ ∀ t ∈ types, isSubtype t target = true := by
  refine ⟨fun h t ht => isSubtype_iff_members.2 fun m hm => ?_, isSubtype_unionOf_left⟩
  have hplain : types.any isAny = false :=
    List.any_eq_false.2 fun t ht => Bool.not_eq_true _ ▸ hany t ht
  rw [unionOf, hplain] at h
  -- of members that are the same only one is kept, but subtyping does not tell them apart
  obtain ⟨kept, hkept, hsame⟩ :=
    exists_mem_distinctBy same_refl (List.mem_flatMap.2 ⟨t, ht, hm⟩)
  rw [← isSubtype_congr hsame target.same_refl]
  exact isSubtype_ofMembers_iff.1 h kept hkept

end FieldType

namespace Value

open FieldType (Admits isSubtype overlaps)

/-! ### Inferred types -/

/--
A leaf value has either a literal for its type, which stands for just the values equal to it, or the
primitive of its kind, if there are no literals of this kind.
-/
theorem typeOf_of_kind? {v : Value} {kind : Primitive} (h : v.kind? = some kind) :
    (v.typeOf = .primitive kind ∧ ∀ l : Literal, l.base ≠ kind) ∨
      ∃ l : Literal, v.typeOf = .literal l ∧ l.base = kind ∧
        ∀ other : Literal, other.standsFor v = other.same l := by
  have hbase : ∀ l : Literal, l.base = .string ∨ l.base = .number ∨ l.base = .boolean := by
    intro l
    cases l <;> simp [Literal.base]
  cases v with
  | boolean b =>
    obtain rfl := Option.some.inj h
    refine .inr ⟨.boolean b, rfl, rfl, fun other => ?_⟩
    cases other <;> rfl
  | number n =>
    obtain rfl := Option.some.inj h
    refine .inr ⟨.number n, rfl, rfl, fun other => ?_⟩
    cases other <;> rfl
  | text s =>
    obtain rfl := Option.some.inj h
    refine .inr ⟨.text s, rfl, rfl, fun other => ?_⟩
    cases other <;> rfl
  | null | bytes _ _ | date _ | moment _ =>
    obtain rfl := Option.some.inj h
    refine .inl ⟨rfl, fun l hl => ?_⟩
    rcases hbase l with h | h | h <;> rw [h] at hl <;> cases hl
  | _ => cases h

theorem mem_typesOf {t : FieldType} {items : List Value} :
    t ∈ typesOf items ↔ ∃ item ∈ items, item.typeOf = t := by
  induction items with
  | nil => simp [typesOf]
  | cons item items ih => rw [typesOf, List.mem_cons, ih, List.exists_mem_cons_iff, eq_comm]

theorem fieldsOf_eq_map (entries : List (Value × Value)) :
    fieldsOf entries = entries.map fun entry => (entry.1.nameText, entry.2.typeOf) := by
  induction entries with
  | nil => rfl
  | cons entry entries ih => rw [fieldsOf, ih, List.map_cons]

namespace Plain

variable {v : Value}

theorem isUnion_typeOf (hv : Plain v) : v.typeOf.isUnion = false := by
  cases hv <;> rfl

theorem isEndless (hv : Plain v) : v.isEndless = false := by
  induction hv with
  | sequence h ih =>
    rename_i kind items
    rw [Value.isEndless]
    clear h
    induction items with
    | nil => rfl
    | cons item items ihitems =>
      rw [anyEndless, ih item List.mem_cons_self,
        ihitems fun other hother => ih other (List.mem_cons_of_mem _ hother), Bool.and_false]
      rfl
  | mapping hkeys hdistinct h ih =>
    rename_i entries
    rw [Value.isEndless]
    clear hkeys hdistinct h
    induction entries with
    | nil => rfl
    | cons entry entries ihentries =>
      rw [anyEntryEndless, ih entry List.mem_cons_self,
        ihentries fun other hother => ih other (List.mem_cons_of_mem _ hother)]
      rfl
  | _ => rfl

theorem lookup_fields {entries : List (Value × Value)}
    (hdistinct : (entries.map (·.1.nameText)).Nodup) {name : String} {w : Value}
    (h : (.text name, w) ∈ entries) :
    (Fields.ofList (fieldsOf entries)).lookup name = some w.typeOf := by
  refine Fields.lookup_ofList ?_ ?_
  · rw [fieldsOf_eq_map, List.map_map]
    exact hdistinct
  · rw [fieldsOf_eq_map]
    exact List.mem_map.2 ⟨_, h, rfl⟩

/-- The inferred type of a value is below every type that admits the value. -/
theorem isSubtype_typeOf (hv : Plain v) {t : FieldType} (h : t.Admits v) :
    isSubtype v.typeOf t = true := by
  -- over the type, since an admitted value follows its shape; items and fields are other values
  induction t generalizing v with
  | any => exact FieldType.isSubtype_any_right _
  | primitive kind =>
    rcases typeOf_of_kind? h with ⟨htype, -⟩ | ⟨l, htype, rfl, -⟩
    · rw [htype]
      exact (FieldType.isSubtype_primitive_iff rfl rfl).2 rfl
    · rw [htype]
      exact (FieldType.isSubtype_literal_iff rfl rfl).2 (.inr rfl)
  | literal l =>
    have hstands : l.standsFor v = true := h
    have hkind := Literal.kind?_of_standsFor hstands
    rcases typeOf_of_kind? hkind with ⟨-, hbase⟩ | ⟨own, htype, -, hsame⟩
    · exact absurd rfl (hbase l)
    · rw [htype]
      rw [hsame] at hstands
      have hliteral := FieldType.same_literal_iff.2 ⟨l, rfl, Literal.same_symm hstands⟩
      exact (FieldType.isSubtype_literal_iff rfl rfl).2 (.inl hliteral)
  | array element ih =>
    obtain ⟨kind, items, rfl, hitems⟩ := FieldType.admits_array_iff.1 h
    cases hv with
    | sequence hplain =>
      refine (FieldType.isSubtype_array_iff rfl rfl).2 ⟨element, rfl, ?_⟩
      -- the element type of the inferred array unites the types of the items
      refine FieldType.isSubtype_unionOf_left fun t ht => ?_
      obtain ⟨item, hitem, rfl⟩ := mem_typesOf.1 ht
      exact ih (hplain item hitem) (hitems item hitem)
  | map fields ih =>
    obtain ⟨entries, rfl, -, hfields⟩ := FieldType.admits_map_iff.1 h
    cases hv with
    | mapping hkeys hdistinct hplain =>
      refine (FieldType.isSubtype_map_iff rfl rfl).2 ⟨fields, rfl, fun field hfield => ?_⟩
      obtain ⟨w, hw, hadmits⟩ := hfields field hfield
      exact ⟨w.typeOf, lookup_fields hdistinct hw, ih field hfield (hplain _ hw) hadmits⟩
  | union members ih =>
    obtain ⟨m, hm, hadmits⟩ := FieldType.admits_union_iff.1 h
    cases hany : v.typeOf.isAny with
    | true =>
      rw [FieldType.isAny_iff.1 hany]
      exact FieldType.isSubtype_any_left _
    | false =>
      exact (FieldType.isSubtype_union_right hany hv.isUnion_typeOf).2 ⟨m, hm, ih m hm hv hadmits⟩

theorem overlaps_typeOf (hv : Plain v) {t : FieldType} (h : t.Admits v) :
    overlaps t v.typeOf = true := by
  obtain ⟨m, hm, hadmits⟩ := FieldType.admits_iff_members.1 h
  have hself : v.typeOf ∈ v.typeOf.members := by
    cases htype : v.typeOf with
    | union members =>
      have hunion := hv.isUnion_typeOf
      rw [htype] at hunion
      cases hunion
    | _ => exact List.mem_singleton.2 rfl
  rw [overlaps, List.any_eq_true]
  refine ⟨m, hm, List.any_eq_true.2 ⟨v.typeOf, hself, ?_⟩⟩
  rw [hv.isSubtype_typeOf hadmits, Bool.or_true]

end Plain

/-!
### Leaf values

A type that is no union admits a leaf value if it is related to the inferred type, in whichever
direction.
-/

theorem admits_of_isSubtype_typeOf {v : Value} {kind : Primitive} (hkind : v.kind? = some kind)
    {t : FieldType} (h : isSubtype v.typeOf t = true) : t.Admits v := by
  rcases typeOf_of_kind? hkind with ⟨htype, -⟩ | ⟨l, htype, -, hstands⟩ <;> rw [htype] at h
  · exact (FieldType.AnyFree.primitive kind).admits_of_isSubtype h hkind
  · have hself : l.standsFor v = true := (hstands l).trans l.same_refl
    exact (FieldType.AnyFree.literal l).admits_of_isSubtype h hself

theorem admits_of_isSubtype_of_typeOf {v : Value} {kind : Primitive}
    (hkind : v.kind? = some kind) {t : FieldType} (hany : t.isAny = false)
    (hunion : t.isUnion = false) (h : isSubtype t v.typeOf = true) : t.Admits v := by
  have hshape : v.typeOf.isAny = false ∧ v.typeOf.isUnion = false := by
    rcases typeOf_of_kind? hkind with ⟨htype, -⟩ | ⟨l, htype, -⟩ <;> rw [htype] <;> exact ⟨rfl, rfl⟩
  cases t with
  | any => cases hany
  | union members => cases hunion
  | primitive other =>
    rw [FieldType.isSubtype_primitive_iff hshape.1 hshape.2] at h
    rcases typeOf_of_kind? hkind with ⟨htype, -⟩ | ⟨l, htype, -⟩
    · obtain rfl := FieldType.primitive.inj (htype.symm.trans h)
      exact hkind
    · rw [htype] at h
      cases h
  | literal other =>
    rw [FieldType.isSubtype_literal_iff hshape.1 hshape.2] at h
    rcases typeOf_of_kind? hkind with ⟨htype, hbase⟩ | ⟨l, htype, -, hstands⟩
    · rw [htype, FieldType.same_literal_iff] at h
      rcases h with ⟨_, h, -⟩ | h
      · cases h
      · exact absurd (FieldType.primitive.inj h).symm (hbase other)
    · rw [htype, FieldType.same_literal_iff] at h
      rcases h with ⟨_, heq, hsame⟩ | h
      · obtain rfl := FieldType.literal.inj heq
        exact (hstands other).trans hsame
      · cases h
  | array element =>
    obtain ⟨other, hother, -⟩ := (FieldType.isSubtype_array_iff hshape.1 hshape.2).1 h
    rcases typeOf_of_kind? hkind with ⟨htype, -⟩ | ⟨l, htype, -⟩ <;> rw [htype] at hother <;>
      cases hother
  | map fields =>
    obtain ⟨others, hothers, -⟩ := (FieldType.isSubtype_map_iff hshape.1 hshape.2).1 h
    rcases typeOf_of_kind? hkind with ⟨htype, -⟩ | ⟨l, htype, -⟩ <;> rw [htype] at hothers <;>
      cases hothers

theorem IsLeaf.admits_of_overlaps {v : Value} (hv : v.IsLeaf) {t : FieldType}
    (ht : ∀ m ∈ t.members, m.isUnion = false) (h : overlaps t v.typeOf = true) : t.Admits v := by
  obtain ⟨kind, hkind⟩ := Option.isSome_iff_exists.1 hv
  have hmembers : v.typeOf.members = [v.typeOf] := by
    rcases typeOf_of_kind? hkind with ⟨htype, -⟩ | ⟨l, htype, -⟩ <;> rw [htype] <;> rfl
  rw [overlaps, hmembers, List.any_eq_true] at h
  obtain ⟨m, hm, hrelated⟩ := h
  refine FieldType.admits_iff_members.2 ⟨m, hm, ?_⟩
  rw [List.any_cons, List.any_nil, Bool.or_false, Bool.or_eq_true] at hrelated
  cases hany : m.isAny with
  | true =>
    obtain rfl := FieldType.isAny_iff.1 hany
    trivial
  | false =>
    rcases hrelated with h | h
    · exact admits_of_isSubtype_of_typeOf hkind hany (ht m hm) h
    · exact admits_of_isSubtype_typeOf hkind h

end Value
end SchemaAtlas
