import SchemaAtlas.Proofs.FieldType.Normal
import SchemaAtlas.Proofs.FieldType.Rendering
import SchemaAtlas.Proofs.FieldType.Words
import SchemaAtlas.Proofs.Text.Joining

/-!
# Types with the same rendering

Neither the texts of literals nor the names of the fields of a map are escaped where a type is rendered.
If no text holds the quote that is put around it and no name the mark that is put behind it, the
rendering is taken apart from the front in one way only, and normal types with the same rendering are
the same.
-/
namespace SchemaAtlas

/-- A literal whose number, if it is one, can be written. -/
def Literal.Rounded : Literal → Prop
  | .number n => n.Rounded
  | .text _ | .boolean _ => True

/-- A literal whose text, if it is one, does not hold the quote. -/
def Literal.Unquoted : Literal → Prop
  | .text value => '\x27' ∉ value.toList
  | .number _ | .boolean _ => True

namespace FieldType

/-- At every depth the literals and the names of the fields of maps are as told. -/
inductive Consists (literals : Literal → Prop) (names : String → Prop) : FieldType → Prop
  | any : Consists literals names .any
  | primitive (kind : Primitive) : Consists literals names (.primitive kind)
  | literal {value : Literal} (h : literals value) : Consists literals names (.literal value)
  | array {element : FieldType} (h : Consists literals names element) :
    Consists literals names (.array element)
  | map {fields : List (String × FieldType)} (hnames : ∀ field ∈ fields, names field.1)
    (h : ∀ field ∈ fields, Consists literals names field.2) : Consists literals names (.map fields)
  | union {members : List FieldType} (h : ∀ m ∈ members, Consists literals names m) :
    Consists literals names (.union members)

/-- No text holds a quote, and no name of a field of a map a colon with a blank behind it. -/
def Clear (t : FieldType) : Prop := t.Consists Literal.Unquoted fun name => Text.Unmarked name.toList

/-- All numbers can be written. -/
def Rounded (t : FieldType) : Prop := t.Consists Literal.Rounded fun _ => True

theorem Written.rounded {t : FieldType} (ht : Written t) : t.Rounded := by
  induction ht with
  | any => exact .any
  | primitive kind => exact .primitive kind
  | @literal value h =>
    cases value with
    | number n =>
      obtain ⟨lexeme, rfl⟩ := h
      exact .literal (Number.rounded_numberOf lexeme)
    | _ => exact .literal trivial
  | array _ ih => exact .array ih
  | openMap =>
    exact .map (fun _ _ => trivial) fun _ hfield => absurd hfield List.not_mem_nil
  | union _ _ _ _ ih => exact .union ih

theorem rounded_of_declaredType {v : Value} {t : FieldType} (h : v.declaredType = .ok t) :
    t.Rounded :=
  Value.holds_of_declaredType (fun hparse => (written_of_parse hparse).rounded)
    (fun _ hentries => .map (fun _ _ => trivial) fun _ hfield =>
      hentries _ (Fields.mem_of_mem_ofList hfield)) v h

/-- A type of which the rendering says everything. -/
structure Transparent (t : FieldType) : Prop where
  normal : t.Normal
  clear : t.Clear
  rounded : t.Rounded

namespace Transparent

variable {t : FieldType}

theorem element {element : FieldType} (h : Transparent (.array element)) : Transparent element := by
  obtain ⟨⟨⟩, ⟨⟩, ⟨⟩⟩ := h
  constructor <;> assumption

theorem field {fields : List (String × FieldType)} {field : String × FieldType}
    (h : Transparent (.map fields)) (hfield : field ∈ fields) :
    Text.Unmarked field.1.toList ∧ Transparent field.2 := by
  obtain ⟨hnormal, hclear, hrounded⟩ := h
  cases hnormal with
  | map _ hnormal =>
  cases hclear with
  | map hnames hclear =>
  cases hrounded with
  | map _ hrounded =>
  exact ⟨hnames field hfield, hnormal field hfield, hclear field hfield, hrounded field hfield⟩

theorem member {members : List FieldType} {m : FieldType} (h : Transparent (.union members))
    (hm : m ∈ members) : Transparent m := by
  obtain ⟨hnormal, hclear, hrounded⟩ := h
  cases hnormal with
  | union _ _ _ hnormal =>
  cases hclear with
  | union hclear =>
  cases hrounded with
  | union hrounded => exact ⟨hnormal m hm, hclear m hm, hrounded m hm⟩

end Transparent

/-! ### Alternatives -/

/-- A type that is an alternative by itself; the union without members is rendered as one. -/
def IsAtom (t : FieldType) : Prop := t.isUnion = false ∨ t = never

theorem alternatives_of_isAtom {t : FieldType} (h : IsAtom t) : t.alternatives = [t] := by
  rcases h with h | rfl
  · cases t with
    | union members => cases h
    | _ => rfl
  · rfl

/-- A normal type is its own only alternative, or a union with two alternatives or more. -/
theorem Normal.alternatives_cases {t : FieldType} (ht : Normal t) :
    IsAtom t ∧ t.alternatives = [t] ∨ ∃ members, t = .union members ∧
      t.alternatives.Perm members ∧ 2 ≤ t.alternatives.length ∧ ∀ m ∈ members, IsAtom m := by
  cases ht with
  | @union members hflat hsingle _ _ =>
    cases hflat with
    | union _ hunion _ =>
    by_cases hne : members = []
    · subst hne
      exact .inl ⟨.inr rfl, rfl⟩
    · have hperm := alternatives_union_perm hne
      have hlength := List.length_pos_iff.2 hne
      refine .inr ⟨members, rfl, hperm, ?_, fun m hm => .inl (hunion m hm)⟩
      rw [hperm.length_eq]
      omega
  | _ => exact .inl ⟨.inl rfl, rfl⟩

theorem alternatives_ne_nil (t : FieldType) : t.alternatives ≠ [] := by
  cases t with
  | union members =>
    cases members with
    | nil => exact List.cons_ne_nil _ _
    | cons first others =>
      intro hnil
      have hperm := alternatives_union_perm (List.cons_ne_nil first others)
      rw [hnil] at hperm
      exact List.cons_ne_nil _ _ hperm.symm.eq_nil
  | _ => exact List.cons_ne_nil _ _

theorem Transparent.of_mem_alternatives {t x : FieldType} (ht : Transparent t)
    (hx : x ∈ t.alternatives) : Transparent x ∧ IsAtom x := by
  rcases ht.normal.alternatives_cases with ⟨hatom, hself⟩ | ⟨members, rfl, hperm, -, hmembers⟩
  · rw [hself, List.mem_singleton] at hx
    subst hx
    exact ⟨ht, hatom⟩
  · have hmem := hperm.mem_iff.1 hx
    exact ⟨ht.member hmem, hmembers x hmem⟩

/-- Types with the same alternatives, one by one, are the same. -/
theorem Normal.same_of_alternatives {t u : FieldType} (ht : Normal t) (hu : Normal u)
    (h : List.Forall₂ (fun a b => same a b = true) t.alternatives u.alternatives) :
    same t u = true := by
  have hlength := h.length_eq
  rcases ht.alternatives_cases with ⟨-, hself⟩ | ⟨members, rfl, hperm, htwo, -⟩ <;>
    rcases hu.alternatives_cases with ⟨-, hself'⟩ | ⟨others, rfl, hperm', htwo', -⟩
  · rw [hself, hself'] at h
    cases h with
    | cons hsame _ => exact hsame
  · rw [hself, List.length_singleton] at hlength
    omega
  · rw [hself', List.length_singleton] at hlength
    omega
  · have hmembers := (sameMembers_of_perm hperm.symm).trans
      ((sameMembers_of_forall₂ h).trans (sameMembers_of_perm hperm'))
    exact same_union_iff.2 ⟨others, rfl, hmembers⟩

/-! ### How an alternative is rendered -/

theorem renderFields_eq_map (fields : List (String × FieldType)) :
    renderFields fields = fields.map fun field => field.1 ++ ": " ++ field.2.render := by
  induction fields with
  | nil => rfl
  | cons field rest ih =>
    obtain ⟨name, type⟩ := field
    rw [renderFields, ih, List.map_cons]

section Rest

variable (rest : List Char)

theorem render_text_append (value : String) :
    (text value).render.toList ++ rest = '\x27' :: (value.toList ++ '\x27' :: rest) := by
  rw [text, render, Literal.render, String.toList_append, String.toList_append, List.append_assoc,
    List.append_assoc]
  rfl

theorem render_array_append (element : FieldType) :
    (array element).render.toList ++ rest =
      "array".toList ++ '<' :: (element.render.toList ++ '>' :: rest) := by
  rw [render, String.toList_append, String.toList_append, List.append_assoc, List.append_assoc]
  rfl

theorem render_map_append {fields : List (String × FieldType)} (hne : fields ≠ []) :
    (map fields).render.toList ++ rest =
      '\x7b' :: ((Text.joinWith ", " (renderFields fields)).toList ++ '\x7d' :: rest) := by
  cases fields with
  | nil => exact absurd rfl hne
  | cons field others =>
    rw [render, String.toList_append, String.toList_append, List.append_assoc, List.append_assoc]
    rfl

end Rest

/-- The four ways in which an alternative is rendered. -/
inductive Form
  | word | text | array | map

/-- The way in which a type is rendered, with what its parts are. -/
inductive Shape : FieldType → Form → Prop
  | word {t : FieldType} (h : IsWord t) : Shape t .word
  | text {value : String} (h : '\x27' ∉ value.toList) : Shape (.text value) .text
  | array {element : FieldType} (h : Transparent element) : Shape (.array element) .array
  | map {fields : List (String × FieldType)} (hne : fields ≠ [])
    (h : ∀ field ∈ fields, Text.Unmarked field.1.toList ∧ Transparent field.2) :
    Shape (.map fields) .map

theorem Transparent.exists_shape {t : FieldType} (ht : Transparent t) (hatom : IsAtom t) :
    ∃ form, Shape t form := by
  cases t with
  | any => exact ⟨_, .word (.name .anything)⟩
  | primitive kind => exact ⟨_, .word (.name (.primitive kind))⟩
  | literal value =>
    obtain ⟨-, hclear, hrounded⟩ := ht
    cases value with
    | text value =>
      cases hclear with
      | literal h => exact ⟨_, .text h⟩
    | number n =>
      cases hrounded with
      | literal h => exact ⟨_, .word (.number h)⟩
    | boolean value => exact ⟨_, .word (.name (.truth value))⟩
  | array element => exact ⟨_, .array ht.element⟩
  | map fields =>
    by_cases hne : fields = []
    · subst hne
      exact ⟨_, .word (.name .openMap)⟩
    · exact ⟨_, .map hne fun _ => ht.field⟩
  | union members =>
    rcases hatom with h | h
    · cases h
    · rw [h]
      exact ⟨_, .word .never⟩

/-! ### What stands behind -/

/-- What may stand behind a type. -/
def Ends (rest : List Char) : Prop := ∀ c ∈ rest.head?, c ∈ [',', '\x7d', '>']

/-- What may stand behind an alternative. -/
def Follows (rest : List Char) : Prop := ∀ c ∈ rest.head?, c ∈ [' ', ',', '\x7d', '>']

theorem Ends.follows {rest : List Char} (h : Ends rest) : Follows rest :=
  fun c hc => List.mem_cons_of_mem _ (h c hc)

theorem Ends.head_ne_blank {rest : List Char} (h : Ends rest) : rest.head? ≠ some ' ' :=
  fun hhead => absurd (h ' ' hhead) (by decide)

theorem ends_nil : Ends [] := nofun

theorem ends_cons {c : Char} (hc : c ∈ [',', '\x7d', '>']) (rest : List Char) : Ends (c :: rest) := by
  rintro d ⟨⟩
  exact hc

theorem follows_blank (rest : List Char) : Follows (' ' :: rest) := by
  rintro d ⟨⟩
  decide

theorem Follows.inWord {rest : List Char} (h : Follows rest) :
    ∀ c ∈ rest.head?, Text.inWord c = false := by
  intro c hc
  have hmem := h c hc
  simp only [List.mem_cons, List.not_mem_nil, or_false] at hmem
  rcases hmem with rfl | rfl | rfl | rfl <;> decide

/-- The form of the alternative at the start, by the first character that is in no word. -/
def formOf (cs : List Char) : Form :=
  match (cs.dropWhile Text.inWord).head? with
  | some '\x27' => .text
  | some '<' => .array
  | some '\x7b' => .map
  | _ => .word

theorem Shape.formOf_append {t : FieldType} {form : Form} {rest : List Char} (h : Shape t form)
    (hrest : Follows rest) : formOf (t.render.toList ++ rest) = form := by
  cases h with
  | word h =>
    rw [formOf, Text.dropWhile_append_of_head h.inWord_of_mem hrest.inWord]
    cases rest with
    | nil => rfl
    | cons c rest =>
      have hmem := hrest c rfl
      simp only [List.mem_cons, List.not_mem_nil, or_false] at hmem
      rcases hmem with rfl | rfl | rfl | rfl <;> rfl
  | text h =>
    rw [render_text_append]
    rfl
  | array h =>
    rw [render_array_append]
    rfl
  | map hne h =>
    rw [render_map_append rest hne]
    rfl

/-- Alternatives at the start of the same characters are rendered in the same way. -/
theorem Shape.of_append_eq {t u : FieldType} {form : Form} {ra rb : List Char} (h : Shape t form)
    (hu : Transparent u) (hatom : IsAtom u) (hra : Follows ra) (hrb : Follows rb)
    (heq : t.render.toList ++ ra = u.render.toList ++ rb) : Shape u form := by
  obtain ⟨form', hu⟩ := hu.exists_shape hatom
  have hform := congrArg formOf heq
  rw [h.formOf_append hra, hu.formOf_append hrb] at hform
  rwa [hform]

/-! ### Taking renderings apart -/

/-- Whatever may stand behind it, the rendering of the type is found at the start of its type only. -/
def Determined (t : FieldType) : Prop :=
  ∀ u, Transparent u → ∀ ra rb, Ends ra → Ends rb →
    t.render.toList ++ ra = u.render.toList ++ rb → same t u = true ∧ ra = rb

/-- The same of an alternative, behind which others may stand. -/
def DeterminedAtom (t : FieldType) : Prop :=
  ∀ u, Transparent u → IsAtom u → ∀ ra rb, Follows ra → Follows rb →
    t.render.toList ++ ra = u.render.toList ++ rb → same t u = true ∧ ra = rb

theorem determinedAtom_word {t : FieldType} (ht : IsWord t) : DeterminedAtom t := by
  intro u hu hatom ra rb hra hrb heq
  cases (Shape.word ht).of_append_eq hu hatom hra hrb heq with
  | word hu =>
    have hword := congrArg (List.takeWhile Text.inWord) heq
    rw [Text.takeWhile_append_of_head ht.inWord_of_mem hra.inWord,
      Text.takeWhile_append_of_head hu.inWord_of_mem hrb.inWord] at hword
    rw [hword] at heq
    exact ⟨ht.same_of_render_eq hu (String.toList_inj.1 hword), List.append_cancel_left heq⟩

theorem determinedAtom_text {value : String} (h : '\x27' ∉ value.toList) :
    DeterminedAtom (text value) := by
  intro u hu hatom ra rb hra hrb heq
  cases (Shape.text h).of_append_eq hu hatom hra hrb heq with
  | @text other h' =>
    rw [render_text_append, render_text_append] at heq
    obtain ⟨hvalue, hrest⟩ := Text.eq_of_append_cons h h' (List.tail_eq_of_cons_eq heq)
    rw [String.toList_inj.1 hvalue]
    exact ⟨same_refl _, hrest⟩

theorem determinedAtom_array {element : FieldType} (ht : Transparent element)
    (h : Determined element) : DeterminedAtom (array element) := by
  intro u hu hatom ra rb hra hrb heq
  cases (Shape.array ht).of_append_eq hu hatom hra hrb heq with
  | @array other hother =>
    rw [render_array_append, render_array_append] at heq
    obtain ⟨hsame, hrest⟩ := h other hother ('>' :: ra) ('>' :: rb) (ends_cons (by decide) ra)
      (ends_cons (by decide) rb) (List.tail_eq_of_cons_eq (List.append_cancel_left heq))
    exact ⟨same_array_iff.2 ⟨other, rfl, hsame⟩, List.tail_eq_of_cons_eq hrest⟩

/-- The fields of maps are found one by one: the name in front of the mark, then the type. -/
theorem sameFields_of_behind_eq {fields others : List (String × FieldType)}
    (hfields : ∀ field ∈ fields, Text.Unmarked field.1.toList ∧ Determined field.2)
    (hothers : ∀ field ∈ others, Text.Unmarked field.1.toList ∧ Transparent field.2)
    {ra rb : List Char}
    (h : Text.behind ", " (renderFields fields) ('\x7d' :: ra) =
      Text.behind ", " (renderFields others) ('\x7d' :: rb)) :
    SameFields fields others ∧ '\x7d' :: ra = '\x7d' :: rb := by
  rw [renderFields_eq_map, renderFields_eq_map] at h
  have hmark : ", ".toList.head? = some ',' := rfl
  refine Text.forall₂_of_behind_eq hmark (fun rest => ends_cons (by decide) _)
    (fun a ha b hb ra rb hra hrb hab => ?_) (ends_cons (by decide) ra) (ends_cons (by decide) rb)
    nofun nofun h
  obtain ⟨hname, hdetermined⟩ := hfields a ha
  obtain ⟨hname', htransparent⟩ := hothers b hb
  have hsplit : a.1.toList ++ ':' :: ' ' :: (a.2.render.toList ++ ra) =
      b.1.toList ++ ':' :: ' ' :: (b.2.render.toList ++ rb) := by
    simp only [String.toList_append, List.append_assoc] at hab
    exact hab
  obtain ⟨hnames, htypes⟩ := Text.eq_of_append_mark hname hname' hsplit
  obtain ⟨hsame, hrest⟩ := hdetermined b.2 htransparent ra rb hra hrb htypes
  exact ⟨⟨String.toList_inj.1 hnames, hsame⟩, hrest⟩

theorem determinedAtom_map {fields : List (String × FieldType)} (hne : fields ≠ [])
    (hfields : ∀ field ∈ fields, Text.Unmarked field.1.toList ∧ Transparent field.2)
    (h : ∀ field ∈ fields, Determined field.2) : DeterminedAtom (map fields) := by
  intro u hu hatom ra rb hra hrb heq
  cases (Shape.map hne hfields).of_append_eq hu hatom hra hrb heq with
  | @map others hne' hothers =>
    have hparts {entries : List (String × FieldType)} (hne : entries ≠ []) :
        renderFields entries ≠ [] := by
      rw [renderFields_eq_map]
      exact mt List.map_eq_nil_iff.1 hne
    rw [render_map_append ra hne, render_map_append rb hne'] at heq
    have hbehind := congrArg (", ".toList ++ ·) (List.tail_eq_of_cons_eq heq)
    rw [Text.separator_append_joinWith _ (hparts hne),
      Text.separator_append_joinWith _ (hparts hne')] at hbehind
    obtain ⟨hall, hrest⟩ := sameFields_of_behind_eq
      (fun field hfield => ⟨(hfields field hfield).1, h field hfield⟩) hothers hbehind
    exact ⟨same_map_iff.2 ⟨others, rfl, hall⟩, List.tail_eq_of_cons_eq hrest⟩

/-- A type is determined if its alternatives are. -/
theorem determined_of_alternatives {t : FieldType} (ht : Transparent t)
    (h : ∀ x ∈ t.alternatives, DeterminedAtom x) : Determined t := by
  intro u hu ra rb hra hrb heq
  have hbehind := congrArg (" | ".toList ++ ·) heq
  rw [render_eq_joinWith t, render_eq_joinWith u,
    Text.separator_append_joinWith _ (mt List.map_eq_nil_iff.1 t.alternatives_ne_nil),
    Text.separator_append_joinWith _ (mt List.map_eq_nil_iff.1 u.alternatives_ne_nil)] at hbehind
  have hmark : " | ".toList.head? = some ' ' := rfl
  obtain ⟨hall, hrest⟩ := Text.forall₂_of_behind_eq hmark (fun rest => follows_blank _)
    (fun x hx y hy ra rb hra hrb hxy => h x hx y (hu.of_mem_alternatives hy).1
      (hu.of_mem_alternatives hy).2 ra rb hra hrb hxy)
    hra.follows hrb.follows hra.head_ne_blank hrb.head_ne_blank hbehind
  exact ⟨ht.normal.same_of_alternatives hu.normal hall, hrest⟩

/-- By induction on the type, of which each alternative is made of smaller types. -/
theorem Transparent.determinedAtom {t : FieldType} (ht : Transparent t) :
    ∀ x ∈ t.alternatives, DeterminedAtom x := by
  induction t with
  | any => exact List.forall_mem_singleton.2 (determinedAtom_word (.name .anything))
  | primitive kind =>
    exact List.forall_mem_singleton.2 (determinedAtom_word (.name (.primitive kind)))
  | literal value =>
    refine List.forall_mem_singleton.2 ?_
    obtain ⟨form, hshape⟩ := ht.exists_shape (.inl rfl)
    cases hshape with
    | word h => exact determinedAtom_word h
    | text h => exact determinedAtom_text h
  | array element ih =>
    refine List.forall_mem_singleton.2 ?_
    exact determinedAtom_array ht.element (determined_of_alternatives ht.element (ih ht.element))
  | map fields ih =>
    refine List.forall_mem_singleton.2 ?_
    by_cases hne : fields = []
    · subst hne
      exact determinedAtom_word (.name .openMap)
    · refine determinedAtom_map hne (fun field => ht.field) fun field hfield => ?_
      have hfieldType := (ht.field hfield).2
      exact determined_of_alternatives hfieldType (ih field hfield hfieldType)
  | union members ih =>
    intro x hx
    by_cases hne : members = []
    · subst hne
      rw [List.mem_singleton.1 hx]
      exact determinedAtom_word .never
    · have hmem := (alternatives_union_perm hne).mem_iff.1 hx
      obtain ⟨htransparent, hatom⟩ := ht.of_mem_alternatives hx
      refine ih x hmem htransparent x ?_
      rw [alternatives_of_isAtom hatom]
      exact List.mem_singleton_self x

/-- Types of which the rendering says everything are the same if their renderings are. -/
theorem Transparent.same_of_render_eq {t u : FieldType} (ht : Transparent t) (hu : Transparent u)
    (h : t.render = u.render) : same t u = true := by
  have hdetermined := determined_of_alternatives ht ht.determinedAtom
  exact (hdetermined u hu [] [] ends_nil ends_nil (by rw [h])).1

end FieldType
end SchemaAtlas
