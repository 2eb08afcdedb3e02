import SchemaAtlas.Proofs.FieldType.Flat
import SchemaAtlas.Value.Inferred

/-!
# Normal types

In a normal type every union is a flat set of alternatives of which there is not just one, and the
fields of every map stand in ascending order of their names. Whatever a type is made from, an
expression, a declaration, a value or other normal types, it is normal. The union of normal types
depends only on which types there are, and may be formed in parts.
-/
namespace SchemaAtlas

namespace FieldType

/--
At every depth the members of a union are neither unions nor `any`, no two of them are the same and
they are not just one, and the names of a map's fields ascend.
-/
inductive Normal : FieldType → Prop
  | any : Normal .any
  | primitive (kind : Primitive) : Normal (.primitive kind)
  | literal (value : Literal) : Normal (.literal value)
  | array {element : FieldType} (h : Normal element) : Normal (.array element)
  | map {fields : List (String × FieldType)} (hnames : (Fields.names fields).Pairwise (· < ·))
    (h : ∀ field ∈ fields, Normal field.2) : Normal (.map fields)
  | union {members : List FieldType} (hflat : Flat (.union members)) (hsingle : members.length ≠ 1)
    (hdistinct : members.Pairwise fun a b => same a b = false) (h : ∀ m ∈ members, Normal m) :
    Normal (.union members)

variable {t m : FieldType} {types as bs xs ys : List FieldType}

/-! ### Sets of alternatives -/

theorem SameMembers.symm (h : SameMembers as bs) : SameMembers bs as := by
  constructor
  · intro b hb
    obtain ⟨a, ha, hab⟩ := h.2 b hb
    exact ⟨a, ha, same_symm hab⟩
  · intro a ha
    obtain ⟨b, hb, hab⟩ := h.1 a ha
    exact ⟨b, hb, same_symm hab⟩

theorem SameMembers.trans {cs : List FieldType} (h : SameMembers as bs) (h' : SameMembers bs cs) :
    SameMembers as cs := by
  constructor
  · intro a ha
    obtain ⟨b, hb, hab⟩ := h.1 a ha
    obtain ⟨c, hc, hbc⟩ := h'.1 b hb
    exact ⟨c, hc, same_trans hab hbc⟩
  · intro c hc
    obtain ⟨b, hb, hbc⟩ := h'.2 c hc
    obtain ⟨a, ha, hab⟩ := h.2 b hb
    exact ⟨a, ha, same_trans hab hbc⟩

theorem SameMembers.append {cs ds : List FieldType} (h : SameMembers as bs)
    (h' : SameMembers cs ds) : SameMembers (as ++ cs) (bs ++ ds) := by
  constructor
  · intro a ha
    rcases List.mem_append.1 ha with ha | ha
    · obtain ⟨b, hb, hab⟩ := h.1 a ha
      exact ⟨b, List.mem_append_left _ hb, hab⟩
    · obtain ⟨d, hd, had⟩ := h'.1 a ha
      exact ⟨d, List.mem_append_right _ hd, had⟩
  · intro b hb
    rcases List.mem_append.1 hb with hb | hb
    · obtain ⟨a, ha, hab⟩ := h.2 b hb
      exact ⟨a, List.mem_append_left _ ha, hab⟩
    · obtain ⟨c, hc, hcb⟩ := h'.2 b hb
      exact ⟨c, List.mem_append_right _ hc, hcb⟩

theorem sameMembers_of_perm (h : as.Perm bs) : SameMembers as bs :=
  ⟨fun a ha => ⟨a, h.mem_iff.1 ha, a.same_refl⟩, fun b hb => ⟨b, h.mem_iff.2 hb, b.same_refl⟩⟩

theorem sameMembers_distinctBy (as : List FieldType) : SameMembers (distinctBy same as) as :=
  ⟨fun a ha => ⟨a, mem_of_mem_distinctBy ha, a.same_refl⟩,
    fun _ ha => exists_mem_distinctBy same_refl ha⟩

/-- Types that are the same have the same alternatives. -/
theorem SameMembers.flatMap_members (h : SameMembers xs ys) :
    SameMembers (xs.flatMap members) (ys.flatMap members) := by
  constructor
  · intro a ha
    obtain ⟨x, hx, ha⟩ := List.mem_flatMap.1 ha
    obtain ⟨y, hy, hxy⟩ := h.1 x hx
    obtain ⟨b, hb, hab⟩ := (members_of_same hxy).1 a ha
    exact ⟨b, List.mem_flatMap.2 ⟨y, hy, hb⟩, hab⟩
  · intro b hb
    obtain ⟨y, hy, hb⟩ := List.mem_flatMap.1 hb
    obtain ⟨x, hx, hxy⟩ := h.2 y hy
    obtain ⟨a, ha, hab⟩ := (members_of_same hxy).2 b hb
    exact ⟨a, List.mem_flatMap.2 ⟨x, hx, ha⟩, hab⟩

/-! ### Unions of alternatives -/

theorem ofMembers_of_length_ne_one (h : as.length ≠ 1) : ofMembers as = union as := by
  unfold ofMembers
  split
  · exact absurd rfl h
  · rfl

theorem members_ofMembers (h : ∀ a ∈ as, a.isUnion = false) : (ofMembers as).members = as := by
  unfold ofMembers
  split
  · exact members_of_isUnion_eq_false (h _ List.mem_cons_self)
  · rfl

theorem exists_singleton_of_sameMembers {a : FieldType} (h : SameMembers [a] bs)
    (hbs : bs.Pairwise fun a b => same a b = false) : ∃ b, bs = [b] ∧ same a b = true := by
  obtain ⟨hforth, hback⟩ := h
  have hall : ∀ b ∈ bs, same a b = true := by
    intro b hb
    obtain ⟨other, hother, hsame⟩ := hback b hb
    rwa [← List.mem_singleton.1 hother]
  match bs with
  | [] =>
    obtain ⟨b, hb, -⟩ := hforth a List.mem_cons_self
    cases hb
  | [b] => exact ⟨b, rfl, hall b List.mem_cons_self⟩
  | b :: c :: rest =>
    -- both are the same as the one type, so they cannot be distinct
    have hb := hall b List.mem_cons_self
    have hc := hall c (List.mem_cons_of_mem b List.mem_cons_self)
    have hne := (List.pairwise_cons.1 hbs).1 c List.mem_cons_self
    rw [same_trans (same_symm hb) hc] at hne
    cases hne

theorem same_ofMembers (h : SameMembers as bs) (has : as.Pairwise fun a b => same a b = false)
    (hbs : bs.Pairwise fun a b => same a b = false) :
    same (ofMembers as) (ofMembers bs) = true := by
  by_cases hone : as.length = 1
  · obtain ⟨a, rfl⟩ := List.length_eq_one_iff.1 hone
    obtain ⟨b, rfl, hab⟩ := exists_singleton_of_sameMembers h hbs
    exact hab
  · by_cases hone' : bs.length = 1
    · obtain ⟨b, rfl⟩ := List.length_eq_one_iff.1 hone'
      obtain ⟨a, rfl, -⟩ := exists_singleton_of_sameMembers h.symm has
      exact absurd rfl hone
    · rw [ofMembers_of_length_ne_one hone, ofMembers_of_length_ne_one hone']
      exact same_union_iff.2 ⟨bs, rfl, h⟩

theorem unionOf_of_any (h : types.any isAny = true) : unionOf types = any := if_pos h

theorem unionOf_of_not_any (h : types.any isAny = false) :
    unionOf types = ofMembers (distinctBy same (types.flatMap members)) := by
  rw [unionOf, h, if_neg Bool.false_ne_true]

/-- Neither order nor repetition of the types matters, nor which of types that are the same are put
together. -/
theorem same_unionOf_of_sameMembers (h : SameMembers xs ys) :
    same (unionOf xs) (unionOf ys) = true := by
  have hany : ys.any isAny = xs.any isAny :=
    (any_congr_of_sameMembers h fun a b hab => (isAny_of_same hab).symm).symm
  cases hxs : xs.any isAny with
  | true =>
    rw [unionOf_of_any hxs, unionOf_of_any (hany.trans hxs)]
    exact same_refl _
  | false =>
    rw [unionOf_of_not_any hxs, unionOf_of_not_any (hany.trans hxs)]
    have hmembers := (sameMembers_distinctBy _).trans
      (h.flatMap_members.trans (sameMembers_distinctBy _).symm)
    exact same_ofMembers hmembers (pairwise_distinctBy _ _) (pairwise_distinctBy _ _)

/-- The type of no value adds nothing to a union. -/
theorem unionOf_append_never (xs ys : List FieldType) :
    unionOf (xs ++ never :: ys) = unionOf (xs ++ ys) := by
  have hany : (xs ++ never :: ys).any isAny = (xs ++ ys).any isAny := by
    rw [List.any_append, List.any_append, List.any_cons]
    rfl
  have hmembers : (xs ++ never :: ys).flatMap members = (xs ++ ys).flatMap members := by
    rw [List.flatMap_append, List.flatMap_append, List.flatMap_cons]
    rfl
  rw [unionOf, unionOf, hany, hmembers]

theorem unionOf_append_any (xs ys : List FieldType) : unionOf (xs ++ any :: ys) = any := by
  refine unionOf_of_any (List.any_eq_true.2 ⟨any, ?_, rfl⟩)
  exact List.mem_append_right xs List.mem_cons_self

namespace Normal

theorem flat (ht : Normal t) : Flat t := by
  induction ht with
  | any => exact .any
  | primitive kind => exact .primitive kind
  | literal value => exact .literal value
  | array _ ih => exact .array ih
  | map _ _ ih => exact .map ih
  | union hflat => exact hflat

theorem of_mem_members (ht : Normal t) (h : m ∈ t.members) : Normal m := by
  cases ht with
  | union _ _ _ hmembers => exact hmembers m h
  | _ =>
    obtain rfl := mem_members_of_isUnion_eq_false rfl h
    constructor <;> assumption

theorem of_mem_distinctBy (h : ∀ t ∈ types, Normal t)
    (hm : m ∈ distinctBy same (types.flatMap members)) : Normal m := by
  obtain ⟨t, ht, hm⟩ := exists_of_mem_distinct_members hm
  exact (h t ht).of_mem_members hm

theorem unionOf (h : ∀ t ∈ types, Normal t) : Normal (unionOf types) := by
  have hflat : Flat (FieldType.unionOf types) := .unionOf fun t ht => (h t ht).flat
  cases hany : types.any isAny with
  | true =>
    rw [unionOf_of_any hany]
    exact .any
  | false =>
    rw [unionOf_of_not_any hany] at hflat ⊢
    by_cases hone : (distinctBy same (types.flatMap members)).length = 1
    · obtain ⟨m, hm⟩ := List.length_eq_one_iff.1 hone
      have hmem : m ∈ distinctBy same (types.flatMap members) := by
        rw [hm]
        exact List.mem_cons_self
      rw [hm]
      exact of_mem_distinctBy h hmem
    · rw [ofMembers_of_length_ne_one hone] at hflat ⊢
      exact .union hflat hone (pairwise_distinctBy _ _) fun m hm => of_mem_distinctBy h hm

/-- A normal type alone is its own union. -/
theorem unionOf_singleton (ht : Normal t) : FieldType.unionOf [t] = t := by
  cases ht with
  | union hflat hsingle hdistinct =>
    rw [unionOf_of_not_any rfl, List.flatMap_singleton, members, distinctBy_eq_self hdistinct,
      ofMembers_of_length_ne_one hsingle]
  | _ => rfl

/-- Where no type is `any`, the union of flat types has the alternatives of all of them. -/
theorem members_unionOf (h : ∀ t ∈ types, Normal t) (hany : types.any isAny = false) :
    (FieldType.unionOf types).members = distinctBy same (types.flatMap members) := by
  rw [unionOf_of_not_any hany]
  refine members_ofMembers fun m hm => ?_
  obtain ⟨t, ht, hm⟩ := exists_of_mem_distinct_members hm
  exact (h t ht).flat.isUnion_of_mem_members hm

theorem isAny_unionOf (h : ∀ t ∈ types, Normal t) :
    (FieldType.unionOf types).isAny = types.any isAny := by
  cases hany : types.any isAny with
  | true =>
    rw [unionOf_of_any hany]
    rfl
  | false =>
    rw [← Bool.not_eq_true, isAny_iff]
    intro heq
    have hmembers := members_unionOf h hany
    rw [heq] at hmembers
    -- `any` would be a member of one of the types, which are flat and not `any` themselves
    have hmem : FieldType.any ∈ distinctBy same (types.flatMap members) := by
      rw [← hmembers]
      exact List.mem_cons_self
    obtain ⟨t, ht, hm⟩ := exists_of_mem_distinct_members hmem
    have hplain : t.isAny = false := by
      rw [← Bool.not_eq_true]
      exact List.any_eq_false.1 hany t ht
    cases (h t ht).flat.isAny_of_mem_members hplain hm

/-- A union may be formed of the unions of its parts. -/
theorem same_unionOf_append (hxs : ∀ t ∈ xs, Normal t) (hys : ∀ t ∈ ys, Normal t) :
    same (FieldType.unionOf (xs ++ ys))
      (FieldType.unionOf [FieldType.unionOf xs, FieldType.unionOf ys]) = true := by
  have hany : [FieldType.unionOf xs, FieldType.unionOf ys].any isAny = (xs ++ ys).any isAny := by
    rw [List.any_cons, List.any_cons, List.any_nil, Bool.or_false, isAny_unionOf hxs,
      isAny_unionOf hys, List.any_append]
  cases hall : (xs ++ ys).any isAny with
  | true =>
    rw [unionOf_of_any hall, unionOf_of_any (hany.trans hall)]
    exact same_refl _
  | false =>
    obtain ⟨hnone, hnone'⟩ := Bool.or_eq_false_iff.1 (List.any_append.symm.trans hall)
    rw [unionOf_of_not_any hall, unionOf_of_not_any (hany.trans hall), List.flatMap_append,
      List.flatMap_cons, List.flatMap_singleton, members_unionOf hxs hnone,
      members_unionOf hys hnone']
    have hparts := (sameMembers_distinctBy (xs.flatMap members)).append
      (sameMembers_distinctBy (ys.flatMap members))
    have hmembers := (sameMembers_distinctBy _).trans
      (hparts.symm.trans (sameMembers_distinctBy _).symm)
    exact same_ofMembers hmembers (pairwise_distinctBy _ _) (pairwise_distinctBy _ _)

theorem ofList {entries : List (String × FieldType)} (h : ∀ entry ∈ entries, Normal entry.2) :
    Normal (.map (Fields.ofList entries)) := by
  refine .map ?_ fun field hfield => h field (Fields.mem_of_mem_ofList hfield)
  rw [Fields.names_ofList]
  exact pairwise_sortedDistinct _

end Normal

theorem Written.normal (ht : Written t) : Normal t := by
  induction ht with
  | any => exact .any
  | primitive kind => exact .primitive kind
  | literal _ => exact .literal _
  | array _ ih => exact .array ih
  | openMap => exact .map .nil fun field hfield => absurd hfield List.not_mem_nil
  | union hflat htwo hdistinct _ ih => exact .union hflat (by omega) hdistinct ih

theorem normal_of_parse {source : String} (h : parse source = .ok t) : Normal t :=
  (written_of_parse h).normal

end FieldType

namespace Value

open FieldType (Normal)

theorem normal_of_declaredType {v : Value} {t : FieldType} (h : v.declaredType = .ok t) :
    Normal t :=
  holds_of_declaredType FieldType.normal_of_parse (fun _ hentries => .ofList hentries) v h

/-! ### Inferred types -/

/-- Only a type that is given as an object can be a union. -/
theorem isUnion_typeOf (v : Value) (h : ∀ t, v ≠ .fieldType t) : v.typeOf.isUnion = false := by
  cases v with
  | fieldType t => exact absurd rfl (h t)
  | _ => rfl

/-- The type is an object within the value, at whatever depth of its sequences and mappings. -/
inductive Embeds : Value → FieldType → Prop
  | self (t : FieldType) : Embeds (.fieldType t) t
  | item {kind : SequenceKind} {items : List Value} {item : Value} {t : FieldType}
    (hitem : item ∈ items) (h : Embeds item t) : Embeds (.sequence kind items) t
  | entry {entries : List (Value × Value)} {entry : Value × Value} {t : FieldType}
    (hentry : entry ∈ entries) (h : Embeds entry.2 t) : Embeds (.mapping entries) t

mutual

theorem normal_typeOf (v : Value) (h : ∀ t, v.Embeds t → Normal t) : Normal v.typeOf := by
  cases v with
  | null | bytes _ _ | date _ | moment _ => exact .primitive _
  | boolean _ | number _ | text _ => exact .literal _
  | sequence kind items =>
    refine .array (.unionOf (normal_typesOf items fun item hitem t ht => ?_))
    exact h t (.item hitem ht)
  | mapping entries =>
    refine .ofList (normal_fieldsOf entries fun entry hentry t ht => ?_)
    exact h t (.entry hentry ht)
  | fieldType t => exact h t (.self t)
  | set _ | sealed | path _ | enclosingSequence _ _ | enclosingMapping _ => exact .any

theorem normal_typesOf (items : List Value) (h : ∀ item ∈ items, ∀ t, item.Embeds t → Normal t) :
    ∀ t ∈ typesOf items, Normal t := by
  match items with
  | [] => exact nofun
  | v :: rest =>
    obtain ⟨hv, hrest⟩ := List.forall_mem_cons.1 h
    exact List.forall_mem_cons.2 ⟨normal_typeOf v hv, normal_typesOf rest hrest⟩

theorem normal_fieldsOf (entries : List (Value × Value))
    (h : ∀ entry ∈ entries, ∀ t, entry.2.Embeds t → Normal t) :
    ∀ field ∈ fieldsOf entries, Normal field.2 := by
  match entries with
  | [] => exact nofun
  | (key, v) :: rest =>
    obtain ⟨hv, hrest⟩ := List.forall_mem_cons.1 h
    exact List.forall_mem_cons.2 ⟨normal_typeOf v hv, normal_fieldsOf rest hrest⟩

end

theorem normal_of_typeOf? {v : Value} {t : FieldType} (hv : ∀ held, v.Embeds held → Normal held)
    (h : v.typeOf? = some t) : Normal t := by
  unfold typeOf? at h
  split at h
  · cases h
  · obtain rfl := Option.some.inj h
    exact normal_typeOf v hv

end Value

namespace FieldType

/--
Types come about normal, from expressions, declarations, values and unions of normal types. Such a
union depends on the set of its types alone and may be formed in parts; `any` absorbs all others, and
the type of no value adds nothing.
-/
theorem normal_of_made_and_unionOf_sets (source : String) (declaration : Value)
    {value : Value} (hvalue : ∀ t, value.Embeds t → Normal t) (hxs : ∀ t ∈ xs, Normal t)
    (hys : ∀ t ∈ ys, Normal t) :
    (∀ t, parse source = .ok t → Normal t) ∧
      (∀ t, declaration.declaredType = .ok t → Normal t) ∧
      (∀ t, value.typeOf? = some t → Normal t) ∧
      Normal (unionOf xs) ∧
      (SameMembers xs ys → same (unionOf xs) (unionOf ys) = true) ∧
      same (unionOf (xs ++ ys)) (unionOf [unionOf xs, unionOf ys]) = true ∧
      unionOf (xs ++ any :: ys) = any ∧
      unionOf (xs ++ never :: ys) = unionOf (xs ++ ys) ∧
      ∀ t ∈ xs, unionOf [never, t] = t ∧ unionOf [t, never] = t := by
  refine ⟨fun t => normal_of_parse, fun t => Value.normal_of_declaredType,
    fun t => Value.normal_of_typeOf? hvalue, .unionOf hxs, same_unionOf_of_sameMembers,
    Normal.same_unionOf_append hxs hys, unionOf_append_any xs ys, unionOf_append_never xs ys,
    fun t ht => ?_⟩
  have hsingle := (hxs t ht).unionOf_singleton
  exact ⟨(unionOf_append_never [] [t]).trans hsingle, (unionOf_append_never [t] []).trans hsingle⟩

/-- The text `a`, or nothing. -/
def optionalLetter : FieldType := union [text "a", primitive .null]

/-- A sequence that holds the type twice, once within a mapping. -/
def lettersValue : Value :=
  .sequence .list [.fieldType optionalLetter,
    .mapping [(.text "b", .null), (.text "a", .fieldType optionalLetter)]]

theorem normal_of_made_and_unionOf_sets_letters :
    (∀ t, lettersValue.Embeds t → Normal t) ∧
      parse "null[]" = .ok (array (primitive .null)) ∧ Normal (array (primitive .null)) ∧
      lettersValue.typeOf? = some lettersValue.typeOf ∧ Normal lettersValue.typeOf ∧
      Value.declaredType (.mapping [(.text "b", .mapping []), (.text "a", .mapping [])]) =
        .ok (map [("a", openMap), ("b", openMap)]) ∧
      Normal (map [("a", openMap), ("b", openMap)]) ∧
      same (unionOf [optionalLetter, text "b"]) (unionOf [text "b", optionalLetter, text "b"]) =
        true ∧
      same (unionOf [optionalLetter, text "b", text "b", optionalLetter, text "b"])
        (unionOf [unionOf [optionalLetter, text "b"],
          unionOf [text "b", optionalLetter, text "b"]]) = true := by
  have hletter : Normal optionalLetter := by
    refine .union (.union_of_members ?_) (by decide) (by decide +kernel) ?_
    · exact List.forall_mem_cons.2
        ⟨⟨rfl, rfl, .literal _⟩, List.forall_mem_singleton.2 ⟨rfl, rfl, .primitive _⟩⟩
    · exact List.forall_mem_cons.2 ⟨.literal _, List.forall_mem_singleton.2 (.primitive _)⟩
  have hvalue : ∀ t, lettersValue.Embeds t → Normal t := by
    intro t h
    cases h with
    | item hitem h =>
    rcases List.mem_cons.1 hitem with rfl | hitem
    · cases h
      exact hletter
    · obtain rfl := List.mem_singleton.1 hitem
      cases h with
      | entry hentry h =>
      rcases List.mem_cons.1 hentry with rfl | hentry
      · cases h
      · obtain rfl := List.mem_singleton.1 hentry
        cases h
        exact hletter
  have hxs : ∀ t ∈ [optionalLetter, text "b"], Normal t :=
    List.forall_mem_cons.2 ⟨hletter, List.forall_mem_singleton.2 (.literal _)⟩
  have hys : ∀ t ∈ [text "b", optionalLetter, text "b"], Normal t :=
    List.forall_mem_cons.2 ⟨.literal _, hxs⟩
  have hsame : SameMembers [optionalLetter, text "b"] [text "b", optionalLetter, text "b"] := by
    unfold SameMembers
    decide +kernel
  have htokens : tokens "null[]" =
      .ok (Grammar.Union.single (.mk (.word (.primitive .null)) 1)).tokens := by
    decide +kernel
  have hparse : parse "null[]" = .ok (array (primitive .null)) :=
    parse_eq_ok_iff.2 ⟨_, htokens, rfl⟩
  obtain ⟨hsource, hdeclared, htyped, -, hunion, hparts, -⟩ :=
    normal_of_made_and_unionOf_sets "null[]"
      (.mapping [(.text "b", .mapping []), (.text "a", .mapping [])]) hvalue hxs hys
  exact ⟨hvalue, hparse, hsource _ hparse, rfl, htyped _ rfl, rfl, hdeclared _ rfl, hunion hsame,
    hparts⟩

end FieldType
end SchemaAtlas
