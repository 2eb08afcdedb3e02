import SchemaAtlas.Proofs.Value.Admitted

/-!
# Exact inference and sound subtyping

The inferred type of a value that documents can hold says just what the value is: it is below the
types that admit the value and below no others. Between types, a type in which `any` does not occur
is below another only if its values are values of the other. There a map may be inhabited by mappings
with keys of any kind, as long as the listed fields are among them.
-/
namespace SchemaAtlas

namespace Value

open FieldType (isSubtype)

/--
The values that documents can hold: scalars other than the undefined number, sequences, and mappings
with distinct texts as keys.
-/
inductive Stored : Value → Prop
  | null : Stored null
  | boolean (b : Bool) : Stored (boolean b)
  | number {n : Number} (h : n.quantity ≠ .undefined) : Stored (number n)
  | text (s : String) : Stored (text s)
  | bytes (data : List Nat) (mutable : Bool) : Stored (bytes data mutable)
  | date (d : Date) : Stored (date d)
  | moment (m : Moment) : Stored (moment m)
  | sequence {kind : SequenceKind} {items : List Value} (h : ∀ item ∈ items, Stored item) :
    Stored (sequence kind items)
  | mapping {entries : List (Value × Value)} (hkeys : ∀ entry ∈ entries, entry.1.isText = true)
    (hdistinct : (entries.map (·.1.nameText)).Nodup) (h : ∀ entry ∈ entries, Stored entry.2) :
    Stored (mapping entries)

namespace Stored

variable {v : Value}

theorem plain (hv : Stored v) : Plain v := by
  induction hv with
  | null => exact .null
  | boolean b => exact .boolean b
  | number h => exact .number h
  | text s => exact .text s
  | bytes data mutable => exact .bytes data mutable
  | date d => exact .date d
  | moment m => exact .moment m
  | sequence _ ih => exact .sequence ih
  | mapping hkeys hdistinct _ ih => exact .mapping hkeys hdistinct ih

theorem isAny_typeOf (hv : Stored v) : v.typeOf.isAny = false := by
  cases hv <;> rfl

/-- A value is of every type that its inferred type is below. -/
theorem admits_of_isSubtype_typeOf (hv : Stored v) {t : FieldType}
    (h : isSubtype v.typeOf t = true) : t.Admits v := by
  induction hv generalizing t with
  | sequence hitems ih =>
    refine FieldType.meaning_admits.of_isSubtype_target rfl rfl (fun b hany hunion h => ?_) h
    obtain ⟨element, rfl, hsub⟩ := (FieldType.isSubtype_array_iff hany hunion).1 h
    refine FieldType.admits_array_iff.2 ⟨_, _, rfl, fun item hitem => ?_⟩
    have htypes : ∀ t ∈ typesOf _, isSubtype t element = true :=
      (FieldType.isSubtype_unionOf_iff fun t ht => by
        obtain ⟨other, hother, rfl⟩ := mem_typesOf.1 ht
        exact (hitems other hother).isAny_typeOf).1 hsub
    exact ih item hitem (htypes _ (mem_typesOf.2 ⟨item, hitem, rfl⟩))
  | mapping hkeys hdistinct hentries ih =>
    rename_i entries
    refine FieldType.meaning_admits.of_isSubtype_target rfl rfl (fun b hany hunion h => ?_) h
    obtain ⟨others, rfl, hsub⟩ := (FieldType.isSubtype_map_iff hany hunion).1 h
    refine FieldType.admits_map_iff.2 ⟨entries, rfl, hkeys, fun field hfield => ?_⟩
    obtain ⟨found, hfound, hle⟩ := hsub field hfield
    -- the inferred fields are the entries, named by the texts that are their keys
    have hmem := Fields.mem_of_mem_ofList (mem_of_lookup hfound)
    rw [fieldsOf_eq_map] at hmem
    obtain ⟨⟨key, w⟩, hentry, heq⟩ := List.mem_map.1 hmem
    obtain ⟨hname, rfl⟩ := Prod.mk.inj heq
    have hkey : key = .text field.1 := by
      have htext := hkeys _ hentry
      cases key with
      | text name => exact congrArg Value.text hname
      | _ => cases htext
    exact ⟨w, hkey ▸ hentry, ih _ hentry hle⟩
  | _ => exact Value.admits_of_isSubtype_typeOf rfl h

/-- The inferred type of a stored value is below a type exactly if the type admits the value. -/
theorem isSubtype_typeOf_iff (hv : Stored v) (t : FieldType) :
    isSubtype v.typeOf t = true ↔ t.Admits v :=
  ⟨hv.admits_of_isSubtype_typeOf, hv.plain.isSubtype_typeOf⟩

/--
A game with two equal scores, a missing one and nothing else of note is a map of scores that may be
missing, and no map of numbers alone.
-/
theorem isSubtype_typeOf_iff_game :
    let scores : Value := .sequence .list [.integer 1, .number (.double (.finite 1)), .null]
    let game : Value := .mapping [(.text "scores", scores), (.text "notes", .mapping [])]
    let numbers : FieldType := .array (.primitive .number)
    let optional : FieldType := .array (.union [.primitive .null, .primitive .number])
    Stored game ∧
      isSubtype game.typeOf (.map [("notes", .openMap), ("scores", optional)]) = true ∧
      isSubtype game.typeOf (.map [("scores", numbers)]) = false := by
  intro scores game numbers optional
  have hscores : Stored scores := .sequence <| List.forall_mem_cons.2 ⟨.number nofun,
    List.forall_mem_cons.2 ⟨.number nofun, List.forall_mem_singleton.2 .null⟩⟩
  have hgame : Stored game := .mapping
    (List.forall_mem_cons.2 ⟨rfl, List.forall_mem_singleton.2 rfl⟩) (by decide)
    (List.forall_mem_cons.2 ⟨hscores, List.forall_mem_singleton.2 (.mapping nofun .nil nofun)⟩)
  refine ⟨hgame, (isSubtype_typeOf_iff hgame _).2 ?_, ?_⟩
  · simp [FieldType.Admits, FieldType.AdmitsFields, FieldType.AdmitsSome, FieldType.openMap, game,
      scores, optional, isText, kind?, integer]
  · rw [← Bool.not_eq_true, isSubtype_typeOf_iff hgame]
    simp [FieldType.Admits, FieldType.AdmitsFields, game, scores, numbers, isText, kind?, integer]

end Stored
end Value

namespace FieldType

mutual

/--
What `Admits` says, but with mappings of all keys: whatever a mapping holds besides the listed fields
does not count, nor under what keys it does.
-/
def Inhabits : FieldType → Value → Prop
  | any, _ => True
  | primitive kind, v => v.kind? = some kind
  | literal value, v => value.standsFor v = true
  | array element, .sequence _ items => ∀ item ∈ items, Inhabits element item
  | map fields, .mapping entries => InhabitsFields fields entries
  | union members, v => InhabitsSome members v
  | _, _ => False

def InhabitsFields : List (String × FieldType) → List (Value × Value) → Prop
  | [], _ => True
  | (name, type) :: rest, entries =>
    (∃ w, (.text name, w) ∈ entries ∧ Inhabits type w) ∧ InhabitsFields rest entries

def InhabitsSome : List FieldType → Value → Prop
  | [], _ => False
  | type :: rest, v => Inhabits type v ∨ InhabitsSome rest v

end

theorem inhabits_array_iff {element : FieldType} {v : Value} :
    Inhabits (array element) v ↔
      ∃ kind items, v = .sequence kind items ∧ ∀ item ∈ items, Inhabits element item := by
  cases v <;> simp [Inhabits]

theorem inhabitsFields_iff {fields : List (String × FieldType)} {entries : List (Value × Value)} :
    InhabitsFields fields entries ↔
      ∀ field ∈ fields, ∃ w, (.text field.1, w) ∈ entries ∧ Inhabits field.2 w := by
  induction fields with
  | nil => simp [InhabitsFields]
  | cons field rest ih => rw [InhabitsFields, ih, List.forall_mem_cons]

theorem inhabits_map_iff {fields : List (String × FieldType)} {v : Value} :
    Inhabits (map fields) v ↔ ∃ entries, v = .mapping entries ∧
      ∀ field ∈ fields, ∃ w, (.text field.1, w) ∈ entries ∧ Inhabits field.2 w := by
  cases v <;> simp [Inhabits, inhabitsFields_iff]

theorem inhabitsSome_iff {types : List FieldType} {v : Value} :
    InhabitsSome types v ↔ ∃ t ∈ types, Inhabits t v := by
  induction types with
  | nil => simp [InhabitsSome]
  | cons t rest ih => rw [InhabitsSome, ih, List.exists_mem_cons_iff]

theorem inhabits_union_iff {members : List FieldType} {v : Value} :
    Inhabits (union members) v ↔ ∃ m ∈ members, Inhabits m v := by
  rw [Inhabits, inhabitsSome_iff]

theorem meaning_inhabits : Meaning Inhabits where
  any _ := trivial
  literal h hv := Literal.standsFor_of_same h hv
  base hv := Literal.kind?_of_standsFor hv
  array h hv := by
    obtain ⟨kind, items, rfl, hitems⟩ := inhabits_array_iff.1 hv
    exact inhabits_array_iff.2 ⟨kind, items, rfl, fun item hitem => h item (hitems item hitem)⟩
  map h hv := by
    obtain ⟨entries, rfl, hentries⟩ := inhabits_map_iff.1 hv
    refine inhabits_map_iff.2 ⟨entries, rfl, fun field hfield => ?_⟩
    obtain ⟨found, hfound, hmore⟩ := h field hfield
    obtain ⟨w, hw, hinhabits⟩ := hentries _ hfound
    exact ⟨w, hw, hmore w hinhabits⟩
  union := inhabits_union_iff

/-- Of a type in which `any` does not occur, every value is a value of the types above it. -/
theorem inhabits_of_isSubtype {a b : FieldType} (ha : a.AnyFree) (hab : isSubtype a b = true)
    {v : Value} (hv : a.Inhabits v) : b.Inhabits v :=
  meaning_inhabits.of_isSubtype ha hab hv

/-- A list of pages that all have a one as their level is one of texts or of pages with a level. -/
theorem inhabits_of_isSubtype_pages :
    let page : FieldType := .map [("level", .literal (.number (.integer 1))),
      ("tags", .array (.literal (.text "new")))]
    let leveled : FieldType := .map [("level", .primitive .number)]
    let pages : Value := .sequence .tuple
      [.mapping [(.integer 0, .sealed), (.text "tags", .sequence .list []),
        (.text "level", .number (.double (.finite 1)))]]
    let target : FieldType := .array (.union [.primitive .string, leveled])
    (array page).AnyFree ∧ isSubtype (array page) target = true ∧ (array page).Inhabits pages ∧
      target.Inhabits pages := by
  intro page leveled pages target
  have hfree : (array page).AnyFree := .array <| .map <| List.forall_mem_cons.2
    ⟨.literal _, List.forall_mem_singleton.2 (.array (.literal _))⟩
  have hsub : isSubtype (array page) target = true := by
    simp [page, target, leveled, isSubtype, isSubtypeOfSome, hasFields, hasField, Literal.base]
  have hpages : (array page).Inhabits pages := by
    simp [page, pages, Inhabits, InhabitsFields, Literal.standsFor, Number.quantity]
  exact ⟨hfree, hsub, hpages, inhabits_of_isSubtype hfree hsub hpages⟩

end FieldType
end SchemaAtlas
