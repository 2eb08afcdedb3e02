import SchemaAtlas.Proofs.Query.Kept

/-!
# What filters on inequality and order keep

An inequality filter keeps a variant unless its type is below the inferred type of the value. It loses
no variant of which a matching document could be if no other value has this inferred type; of two
moments it knows nothing but that both are timestamps. A filter on order keeps what has the value
itself. It loses no variant of which a matching document could be by a value that is not one of the
literals that the type lists.
-/
namespace SchemaAtlas

/-- The order of quantities, in which an undefined one has no place. -/
def Quantity.less : Quantity → Quantity → Bool
  | finite a, finite b => decide (a < b)
  | infinite negative, finite _ => negative
  | finite _, infinite negative => !negative
  | infinite a, infinite b => a && !b
  | _, _ => false

namespace Value

/-- Equality of leaf values. Booleans are not numbers, and an undefined number equals nothing. -/
def sameLeaf : Value → Value → Bool
  | null, null => true
  | boolean a, boolean b => a == b
  | number a, number b => a.same b && decide (b.quantity ≠ .undefined)
  | text a, text b => a == b
  | bytes a _, bytes b _ => a == b
  | date a, date b => a == b
  | moment a, moment b => a.same b
  | _, _ => false

def less : Value → Value → Bool
  | number a, number b => a.quantity.less b.quantity
  | text a, text b => decide (a < b)
  | _, _ => false

/-- Values that are the only ones of their inferred type, up to equality. -/
def isSingle : Value → Bool
  | null | boolean _ | number _ | text _ => true
  | _ => false

theorem Plain.sameLeaf_of_admits_typeOf {x w : Value} (hx : x.Plain) (hsingle : x.isSingle = true)
    (h : x.typeOf.Admits w) : w.sameLeaf x = true := by
  cases hx with
  | null =>
    cases w with
    | null => rfl
    | _ => cases h
  | boolean b =>
    cases w with
    | boolean c => exact beq_iff_eq.2 (eq_of_beq h).symm
    | _ => cases h
  | number hdefined =>
    cases w with
    | number m =>
      have hsame := Number.same_iff.2 (Number.same_iff.1 h).symm
      exact Bool.and_eq_true_iff.2 ⟨hsame, decide_eq_true hdefined⟩
    | _ => cases h
  | text s =>
    cases w with
    | text r => exact beq_iff_eq.2 (eq_of_beq h).symm
    | _ => cases h
  | _ => cases hsingle

theorem exists_kind_of_isSingle {x : Value} (h : x.isSingle = true) :
    ∃ kind, x.kind? = some kind := by
  cases x with
  | null | boolean _ | number _ | text _ => exact ⟨_, rfl⟩
  | _ => cases h

end Value

namespace FieldType

/-- Below the type of a single value there is no other value, `any` apart. -/
theorem Flat.admits_typeOf_of_isSubtype {t : FieldType} (ht : t.Flat) (hany : t.isAny = false)
    {x : Value} (hsingle : x.isSingle = true) (h : isSubtype t x.typeOf = true) {w : Value}
    (hw : t.Admits w) : x.typeOf.Admits w := by
  obtain ⟨m, hm, hw⟩ := admits_iff_members.1 hw
  have hsub := isSubtype_iff_members.1 h m hm
  obtain ⟨kind, hkind⟩ := Value.exists_kind_of_isSingle hsingle
  cases m with
  | any => cases ht.isAny_of_mem_members hany hm
  | union members => cases ht.isUnion_of_mem_members hm
  | primitive kind => exact (AnyFree.primitive kind).admits_of_isSubtype hsub hw
  | literal l => exact (AnyFree.literal l).admits_of_isSubtype hsub hw
  -- a container that is below the type of a single value would admit the value itself
  | array element =>
    have hself := Value.admits_of_isSubtype_of_typeOf hkind rfl rfl hsub
    obtain ⟨_, _, rfl, -⟩ := admits_array_iff.1 hself
    cases hkind
  | map fields =>
    have hself := Value.admits_of_isSubtype_of_typeOf hkind rfl rfl hsub
    obtain ⟨_, rfl, -⟩ := admits_map_iff.1 hself
    cases hkind

/-- With a leaf value a flat type admits all others of the kind, literals apart. -/
theorem Flat.admits_of_kind? {t : FieldType} (ht : t.Flat) {w x : Value} {kind : Primitive}
    (hw : w.kind? = some kind) (hx : x.kind? = some kind)
    (hliterals : ∀ l, FieldType.literal l ∈ t.members → l.standsFor w = true → l.standsFor x = true)
    (h : t.Admits w) : t.Admits x := by
  obtain ⟨m, hm, h⟩ := admits_iff_members.1 h
  refine admits_iff_members.2 ⟨m, hm, ?_⟩
  cases m with
  | any => trivial
  | primitive other => exact hx.trans (hw.symm.trans h)
  | literal l => exact hliterals l hm h
  | union members => cases ht.isUnion_of_mem_members hm
  | array element =>
    obtain ⟨_, _, rfl, -⟩ := admits_array_iff.1 h
    cases hw
  | map fields =>
    obtain ⟨_, rfl, -⟩ := admits_map_iff.1 h
    cases hw

end FieldType

namespace SchemaUnion

/--
An inequality filter loses no variant of a type without `any` that has a value which is not of the
inferred type of the compared value. On null, booleans, numbers and texts it loses none that has a
different value, unless the type is `any`.
-/
theorem keeps_notEqual_of_other {u : SchemaUnion} (hu : u.Reachable) {variant : Variant}
    (hvariant : variant ∈ u.variants) {field : String} {t : FieldType}
    (ht : variant.schema.fieldAt? field = some t) {x : Value} (hx : x.isEndless = false) :
    (t.AnyFree → (∃ w, t.Admits w ∧ ¬ x.typeOf.Admits w) → u.Keeps field .notEqual x variant) ∧
      (t.Flat → t.isAny = false → x.Plain → x.isSingle = true →
        (∃ w, t.Admits w ∧ w.sameLeaf x = false) → u.Keeps field .notEqual x variant) := by
  rw [keeps_notEqual_iff hu hvariant ht hx, ← Bool.not_eq_true]
  constructor
  · intro hfree h hsub
    obtain ⟨w, hw, hother⟩ := h
    exact hother (hfree.admits_of_isSubtype hsub hw)
  · intro hflat hany hplain hsingle h hsub
    obtain ⟨w, hw, hother⟩ := h
    have hsame := hplain.sameLeaf_of_admits_typeOf hsingle
      (hflat.admits_typeOf_of_isSubtype hany hsingle hsub hw)
    rw [hother] at hsame
    cases hsame

/-- A nickname that may be missing can be other than null, and a number is no list of texts. -/
theorem keeps_notEqual_of_other_nickname :
    let nickname : FieldType := .union [.primitive .string, .primitive .null]
    let users : Variant := ⟨⟨[("nickname", nickname)]⟩, ["users/1"]⟩
    let u := candidates [users] none
    u.Reachable ∧ nickname.Flat ∧ nickname.AnyFree ∧
      u.Keeps "nickname" .notEqual .null users ∧
      u.Keeps "nickname" .notEqual (.sequence .list [.text "a"]) users := by
  intro nickname users u
  have hu : u.Reachable := .ofPairs [(users.schema, "users/1")]
  have hflat : nickname.Flat := .union_of_members <| List.forall_mem_cons.2
    ⟨⟨rfl, rfl, .primitive _⟩, List.forall_mem_singleton.2 ⟨rfl, rfl, .primitive _⟩⟩
  have hfree : nickname.AnyFree := .union <| List.forall_mem_cons.2
    ⟨.primitive _, List.forall_mem_singleton.2 (.primitive _)⟩
  have hfield : users.schema.fieldAt? "nickname" = some nickname := rfl
  have hname : nickname.Admits (.text "a") := .inl rfl
  refine ⟨hu, hflat, hfree, ?_, ?_⟩
  · exact (keeps_notEqual_of_other hu List.mem_cons_self hfield rfl).2 hflat rfl .null rfl
      ⟨.text "a", hname, rfl⟩
  · refine (keeps_notEqual_of_other hu List.mem_cons_self hfield rfl).1 hfree ⟨.null, ?_, ?_⟩
    · exact .inr (.inl rfl)
    · exact id

/-- Of two moments an inequality filter does not see that they differ. -/
theorem not_keeps_notEqual_moment :
    let noon : Value := .moment ⟨⟨2024, 1, 1⟩, 12, 0, 0, 0, none⟩
    let night : Value := .moment ⟨⟨2024, 1, 1⟩, 23, 0, 0, 0, none⟩
    let posts : Variant := ⟨⟨[("created", .primitive .timestamp)]⟩, ["posts/1"]⟩
    let u := candidates [posts] none
    u.Reachable ∧ posts.schema.fieldAt? "created" = some (.primitive .timestamp) ∧
      noon.Plain ∧ FieldType.Admits (.primitive .timestamp) night ∧
      night.sameLeaf noon = false ∧
      ∃ r, u.compare "created" .notEqual noon = .ok r ∧ posts ∉ r.variants := by
  intro noon night posts u
  have hu : u.Reachable := .ofPairs [(posts.schema, "posts/1")]
  have hfield : posts.schema.fieldAt? "created" = some (.primitive .timestamp) := rfl
  have hanswer := compare_eq hu List.mem_cons_self hfield
    (show Comparison.isFinite .notEqual noon = true from rfl)
  refine ⟨hu, hfield, .moment _, rfl, by decide, _, hanswer, fun h => ?_⟩
  have hkept : u.Keeps "created" .notEqual noon posts := ⟨_, hanswer, h⟩
  rw [keeps_notEqual_iff hu List.mem_cons_self hfield rfl, ← Bool.not_eq_true] at hkept
  exact hkept ((FieldType.isSubtype_primitive_iff rfl rfl).2 rfl)

end SchemaUnion

/-- Whether a value of a field satisfies the operator on order with the compared value. -/
def Operator.orders : Operator → Value → Value → Bool
  | lessThan, w, x => w.less x
  | lessThanOrEqual, w, x => w.less x || w.sameLeaf x
  | greaterThan, w, x => x.less w
  | greaterThanOrEqual, w, x => x.less w || w.sameLeaf x
  | _, _, _ => false

namespace Value

/-- Leaf values of one kind, with no undefined number among them. -/
def Alike (w x : Value) : Prop :=
  w.Plain ∧ x.Plain ∧ ∃ kind, w.kind? = some kind ∧ x.kind? = some kind

theorem Alike.symm {w x : Value} (h : w.Alike x) : x.Alike w := by
  obtain ⟨hw, hx, kind, hkw, hkx⟩ := h
  exact ⟨hx, hw, kind, hkx, hkw⟩

/-- Only numbers and texts are ordered, each among themselves. -/
theorem alike_of_less {w x : Value} (h : w.less x = true) : w.Alike x := by
  cases w with
  | text s =>
    cases x with
    | text r => exact ⟨.text s, .text r, .string, rfl, rfl⟩
    | _ => cases h
  | number n =>
    cases x with
    | number m =>
      have hless : n.quantity.less m.quantity = true := h
      refine ⟨.number fun hn => ?_, .number fun hm => ?_, .number, rfl, rfl⟩
      · rw [hn] at hless
        cases hless
      · rw [hm] at hless
        cases hn : n.quantity <;> rw [hn] at hless <;> cases hless
    | _ => cases h
  | _ => cases h

theorem alike_of_sameLeaf {w x : Value} (h : w.sameLeaf x = true) : w.Alike x := by
  cases w <;> cases x <;> first | cases h | skip
  · exact ⟨.null, .null, _, rfl, rfl⟩
  · exact ⟨.boolean _, .boolean _, _, rfl, rfl⟩
  · rename_i n m
    have hnumbers : n.same m = true ∧ decide (m.quantity ≠ .undefined) = true :=
      Bool.and_eq_true_iff.1 h
    have hm := of_decide_eq_true hnumbers.2
    have hn := Number.same_iff.1 hnumbers.1 ▸ hm
    exact ⟨.number hn, .number hm, _, rfl, rfl⟩
  · exact ⟨.text _, .text _, _, rfl, rfl⟩
  · exact ⟨.bytes _ _, .bytes _ _, _, rfl, rfl⟩
  · exact ⟨.date _, .date _, _, rfl, rfl⟩
  · exact ⟨.moment _, .moment _, _, rfl, rfl⟩

end Value

theorem Operator.alike_of_orders {operator : Operator} {w x : Value}
    (h : operator.orders w x = true) : w.Alike x := by
  cases operator with
  | lessThan => exact Value.alike_of_less h
  | lessThanOrEqual =>
    exact (Bool.or_eq_true_iff.1 h).elim Value.alike_of_less Value.alike_of_sameLeaf
  | greaterThan => exact (Value.alike_of_less h).symm
  | greaterThanOrEqual =>
    rcases Bool.or_eq_true_iff.1 h with h | h
    · exact (Value.alike_of_less h).symm
    · exact Value.alike_of_sameLeaf h
  | _ => cases h

namespace SchemaUnion

/--
A filter on order keeps a variant exactly if the type of its field admits the compared value itself.
So it loses no variant for a value that satisfies the comparison, unless that value is a literal of
the type and the compared value is another.
-/
theorem keeps_ordering_iff_admits {u : SchemaUnion} (hu : u.Reachable) {variant : Variant}
    (hvariant : variant ∈ u.variants) {field : String} {t : FieldType}
    (ht : variant.schema.fieldAt? field = some t) (hflat : t.Flat) {operator : Operator}
    (hoperator : operator.isOrdering = true) (x : Value) :
    (x.Plain → x.IsLeaf → (u.Keeps field operator x variant ↔ t.Admits x)) ∧
      ((∃ w, t.Admits w ∧ operator.orders w x = true ∧
        ∀ l, .literal l ∈ t.members → l.standsFor w = true → l.standsFor x = true) →
        u.Keeps field operator x variant) := by
  have hexact : x.Plain → x.IsLeaf → (u.Keeps field operator x variant ↔ t.Admits x) := by
    intro hx hleaf
    rw [keeps_iff_overlaps hu hvariant ht hx.isEndless (.inr hoperator),
      hleaf.overlaps_typeOf_iff hx hflat]
  refine ⟨hexact, fun h => ?_⟩
  obtain ⟨w, hw, horders, hliterals⟩ := h
  obtain ⟨-, hx, kind, hkw, hkx⟩ := Operator.alike_of_orders horders
  exact (hexact hx (Option.isSome_iff_exists.2 ⟨kind, hkx⟩)).2
    (hflat.admits_of_kind? hkw hkx hliterals hw)

/-- A level that is five or any number can be above three, and is no text. -/
theorem keeps_ordering_iff_admits_level :
    let level : FieldType := .union [.literal (.number (.integer 5)), .primitive .number]
    let users : Variant := ⟨⟨[("level", level)]⟩, ["users/1"]⟩
    let u := candidates [users] none
    u.Reachable ∧ level.Flat ∧ Operator.orders .greaterThan (.integer 7) (.integer 3) = true ∧
      u.Keeps "level" .greaterThan (.integer 3) users ∧
      ¬ u.Keeps "level" .lessThanOrEqual (.text "3") users := by
  intro level users u
  have hu : u.Reachable := .ofPairs [(users.schema, "users/1")]
  have hflat : level.Flat := .union_of_members <| List.forall_mem_cons.2
    ⟨⟨rfl, rfl, .literal _⟩, List.forall_mem_singleton.2 ⟨rfl, rfl, .primitive _⟩⟩
  have hfield : users.schema.fieldAt? "level" = some level := rfl
  have horders : Operator.orders .greaterThan (.integer 7) (.integer 3) = true := by
    decide
  have hmore := (keeps_ordering_iff_admits hu List.mem_cons_self hfield hflat
    (show Operator.isOrdering .greaterThan = true from rfl) (.integer 3)).2
  have htext := (keeps_ordering_iff_admits hu List.mem_cons_self hfield hflat
    (show Operator.isOrdering .lessThanOrEqual = true from rfl) (.text "3")).1 (.text "3") rfl
  refine ⟨hu, hflat, horders, hmore ⟨.integer 7, .inr (.inl rfl), horders, ?_⟩, fun h => ?_⟩
  · intro l hl hstands
    rcases List.mem_pair.1 hl with heq | heq
    · obtain rfl := FieldType.literal.inj heq
      exact absurd hstands (by decide)
    · cases heq
  · obtain ⟨m, hm, hadmits⟩ := FieldType.admits_union_iff.1 (htext.1 h)
    rcases List.mem_pair.1 hm with rfl | rfl <;> cases hadmits

/-- A level that is five is above three, but a filter on order does not see that. -/
theorem not_keeps_ordering_literal :
    let five : FieldType := .literal (.number (.integer 5))
    let users : Variant := ⟨⟨[("level", five)]⟩, ["users/1"]⟩
    let u := candidates [users] none
    u.Reachable ∧ users.schema.fieldAt? "level" = some five ∧ five.Admits (.integer 5) ∧
      Operator.orders .greaterThan (.integer 5) (.integer 3) = true ∧
      ∃ r, u.compare "level" .greaterThan (.integer 3) = .ok r ∧ users ∉ r.variants := by
  intro five users u
  have hu : u.Reachable := .ofPairs [(users.schema, "users/1")]
  have hfield : users.schema.fieldAt? "level" = some five := rfl
  have hanswer := compare_eq hu List.mem_cons_self hfield
    (show Comparison.isFinite .greaterThan (.integer 3) = true from rfl)
  have hstands : Literal.standsFor (.number (.integer 5)) (.integer 5) = true := by decide
  refine ⟨hu, hfield, hstands, by decide, _, hanswer, fun h => ?_⟩
  have hkept : u.Keeps "level" .greaterThan (.integer 3) users := ⟨_, hanswer, h⟩
  have hleaf : (Value.integer 3).IsLeaf := rfl
  rw [keeps_iff_overlaps hu List.mem_cons_self hfield rfl (.inr rfl),
    hleaf.overlaps_typeOf_iff (.number nofun) (.literal _)] at hkept
  have hthree : Literal.standsFor (.number (.integer 5)) (.integer 3) = true := hkept
  exact absurd hthree (by decide)

end SchemaUnion
end SchemaAtlas
