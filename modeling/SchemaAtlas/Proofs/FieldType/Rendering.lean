import SchemaAtlas.FieldType.Printer
import SchemaAtlas.Proofs.FieldType.Lexing
import SchemaAtlas.Proofs.FieldType.Normal

/-!
# Rendered types are read back

The rendering of a written type is an expression of the same type. The rendered text is not the text
that was read: alternatives stand in the order of their texts, and there are neither parentheses nor
brackets. So the proof gives every rendering a derivation tree of its own, whose tokens it splits into,
and compares the type that the tree denotes with the rendered one.
-/
namespace SchemaAtlas

/-- A literal that an expression can write: a text without the quote around it, or an integer. -/
def Literal.Legible : Literal → Prop
  | .text value => '\x27' ∉ value.toList
  | .number (.integer _) => True
  | .number (.double _) => False
  | .boolean _ => True

instance : DecidablePred Literal.Legible
  | .text value => inferInstanceAs (Decidable ('\x27' ∉ value.toList))
  | .number (.integer _) => .isTrue trivial
  | .number (.double _) => .isFalse id
  | .boolean _ => .isTrue trivial

namespace FieldType

open Grammar

/-- Every literal in the type, at whatever depth, can be written. -/
inductive Legible : FieldType → Prop
  | any : Legible .any
  | primitive (kind : Primitive) : Legible (.primitive kind)
  | literal {value : Literal} (h : value.Legible) : Legible (.literal value)
  | array {element : FieldType} (h : Legible element) : Legible (.array element)
  | map {fields : List (String × FieldType)} (h : ∀ field ∈ fields, Legible field.2) :
    Legible (.map fields)
  | union {members : List FieldType} (h : ∀ m ∈ members, Legible m) : Legible (.union members)

/-! ### Texts and their tokens -/

/-- The text splits into the tokens, in front of whatever may stand behind it. -/
def Spells (text : String) (row : List Token) : Prop :=
  ∀ rest others, Closes rest → SplitsInto rest others →
    SplitsInto (text.toList ++ rest) (row ++ others)

namespace Spells

variable {text text' : String} {row row' : List Token}

theorem splitsInto (h : Spells text row) : SplitsInto text.toList row := by
  have hsplits := h [] [] closes_nil .nil
  rwa [List.append_nil, List.append_nil] at hsplits

theorem name {c : Char} {cs : List Char} (htext : text.toList = c :: cs)
    (hstarts : startsName c = true) (hblank : Text.isBlank c = false)
    (hdigit : Text.isDigit c = false) (hcs : cs.all continuesName = true) :
    Spells text [⟨.name, text.toList⟩] := by
  intro rest others hrest hothers
  have hend : ∀ d ∈ rest.head?, continuesName d = false := hrest.eq_false (by decide) (by decide)
  rw [htext]
  exact hothers.token hblank
    (scanToken?_name hstarts hdigit (List.all_eq_true.1 hcs) hend)

theorem word (w : Word) : Spells w.spelling [w.token] := by
  cases w with
  | truth value => cases value <;> exact name rfl (by decide) (by decide) (by decide) (by decide)
  | anything => exact name rfl (by decide) (by decide) (by decide) (by decide)
  | openMap => exact name rfl (by decide) (by decide) (by decide) (by decide)
  | primitive kind => cases kind <;> exact name rfl (by decide) (by decide) (by decide) (by decide)

theorem quoted {value : String} (hvalue : '\x27' ∉ value.toList) :
    Spells ("'" ++ value ++ "'") [⟨.quoted, '\x27' :: (value.toList ++ ['\x27'])⟩] := by
  intro rest others hrest hothers
  have htext : ("'" ++ value ++ "'").toList = '\x27' :: (value.toList ++ ['\x27']) := by
    rw [String.toList_append, String.toList_append]
    rfl
  rw [htext]
  exact hothers.token (by decide) (scanToken?_quoted hvalue rest)

theorem integer (i : Int) : Spells (toString i) [⟨.number, (toString i).toList⟩] := by
  intro rest others hrest hothers
  obtain ⟨c, cs, htext, hblank⟩ := exists_cons_of_toString_int i
  rw [htext]
  exact hothers.token hblank (scanToken?_integer htext hrest)

theorem array (h : Spells text row) :
    Spells ("array<" ++ text ++ ">")
      (arrayToken :: Token.symbolOf "<" :: (row ++ [Token.symbolOf ">"])) := by
  intro rest others hrest hothers
  have hclosing : SplitsInto ('>' :: rest) (Token.symbolOf ">" :: others) :=
    hothers.symbol (by decide)
  have helement : SplitsInto (text.toList ++ '>' :: rest) (row ++ Token.symbolOf ">" :: others) :=
    h _ _ (closes_angle rest) hclosing
  have hopening : SplitsInto ('<' :: (text.toList ++ '>' :: rest))
      (Token.symbolOf "<" :: (row ++ Token.symbolOf ">" :: others)) :=
    helement.symbol (by decide)
  have hend : ∀ c ∈ ('<' :: (text.toList ++ '>' :: rest)).head?, continuesName c = false := by
    intro c hc
    obtain rfl := Option.some.inj hc
    decide
  have hname : scanToken? ('a' :: (['r', 'r', 'a', 'y'] ++ '<' :: (text.toList ++ '>' :: rest))) =
      some arrayToken :=
    scanToken?_name (by decide) (by decide) (List.all_eq_true.1 (by decide)) hend
  have htext : ("array<" ++ text ++ ">").toList ++ rest =
      'a' :: (['r', 'r', 'a', 'y'] ++ '<' :: (text.toList ++ '>' :: rest)) := by
    rw [String.toList_append, String.toList_append, List.append_assoc, List.append_assoc]
    rfl
  have hrow : arrayToken :: Token.symbolOf "<" :: (row ++ [Token.symbolOf ">"]) ++ others =
      arrayToken :: Token.symbolOf "<" :: (row ++ Token.symbolOf ">" :: others) := by
    simp only [List.cons_append, List.append_assoc, List.nil_append]
  rw [htext, hrow]
  exact hopening.token (by decide) hname

theorem either (h : Spells text row) (h' : Spells text' row') :
    Spells (text ++ " | " ++ text') (row ++ Token.symbolOf "|" :: row') := by
  intro rest others hrest hothers
  have hbehind : SplitsInto (' ' :: (text'.toList ++ rest)) (row' ++ others) :=
    (h' rest others hrest hothers).blank (by decide)
  have hbar : SplitsInto ('|' :: ' ' :: (text'.toList ++ rest))
      (Token.symbolOf "|" :: (row' ++ others)) :=
    hbehind.symbol (by decide)
  have hall := h _ _ (closes_blank _) (hbar.blank (by decide))
  have htext : (text ++ " | " ++ text').toList ++ rest =
      text.toList ++ ' ' :: '|' :: ' ' :: (text'.toList ++ rest) := by
    rw [String.toList_append, String.toList_append, List.append_assoc, List.append_assoc]
    rfl
  rw [htext, List.append_assoc]
  exact hall

end Spells

/-! ### Alternatives that are the same -/

section Alternatives

variable {as bs : List FieldType}

theorem sameMembers_of_forall₂ (h : List.Forall₂ (fun a b => same a b = true) as bs) :
    SameMembers as bs :=
  ⟨fun _ ha => exists_right_of_forall₂ h ha, fun _ hb => exists_left_of_forall₂ h hb⟩

theorem pairwise_of_forall₂ (h : List.Forall₂ (fun a b => same a b = true) as bs)
    (hbs : bs.Pairwise fun a b => same a b = false) : as.Pairwise fun a b => same a b = false := by
  induction h with
  | nil => exact .nil
  | cons hab hrest ih =>
    rename_i a b as bs
    obtain ⟨hb, hbs⟩ := List.pairwise_cons.1 hbs
    refine List.pairwise_cons.2 ⟨fun a' ha' => ?_, ih hbs⟩
    obtain ⟨b', hb', hab'⟩ := (sameMembers_of_forall₂ hrest).1 a' ha'
    rw [← Bool.not_eq_true]
    intro hsame
    have hbb := same_trans (same_symm hab) (same_trans hsame hab')
    exact absurd hbb (Bool.eq_false_iff.1 (hb b' hb'))

/-- Distinct alternatives that are neither unions nor `any` stay as they are. -/
theorem unionOf_eq_self (htwo : 2 ≤ as.length) (hany : ∀ a ∈ as, a.isAny = false)
    (hunion : ∀ a ∈ as, a.isUnion = false) (hdistinct : as.Pairwise fun a b => same a b = false) :
    unionOf as = .union as := by
  have hplain : as.any isAny = false := by
    rw [List.any_eq_false]
    intro a ha
    rw [hany a ha]
    exact Bool.false_ne_true
  have hmembers : as.flatMap members = as := by
    rw [List.flatMap_congr fun a ha => members_of_isUnion_eq_false (hunion a ha),
      List.flatMap_singleton']
  rw [unionOf_of_not_any hplain, hmembers, distinctBy_eq_self hdistinct]
  exact ofMembers_of_length_ne_one (by omega)

theorem ofAlternatives_eq_unionOf (htwo : 2 ≤ as.length) : ofAlternatives as = unionOf as := by
  unfold ofAlternatives
  split
  · exact absurd htwo (by simp)
  · rfl

end Alternatives

/-! ### Renderings and their trees -/

theorem renderAll_eq_map (types : List FieldType) : renderAll types = types.map render := by
  induction types with
  | nil => rfl
  | cons type rest ih => rw [renderAll, ih, List.map_cons]

/-- The alternatives in the order in which they are rendered. -/
def alternatives : FieldType → List FieldType
  | union (first :: others) => sortBy (fun a b => decide (a.render ≤ b.render)) (first :: others)
  | t => [t]

theorem render_eq_joinWith (t : FieldType) :
    t.render = Text.joinWith " | " (t.alternatives.map render) := by
  cases t with
  | union members =>
    cases members with
    | nil => rfl
    | cons first others =>
      rw [render, renderAll_eq_map, sortTexts, sortBy_map]
      rfl
  | _ => rfl

theorem alternatives_union_perm {members : List FieldType} (hne : members ≠ []) :
    (alternatives (.union members)).Perm members := by
  cases members with
  | nil => exact absurd rfl hne
  | cons first others => exact sortBy_perm _ _

/-- A union that the text spells and that denotes the type up to equality, as an item where it can. -/
def Rereads (t : FieldType) : Prop :=
  ∃ u : Union, Spells t.render u.tokens ∧ same u.type t = true ∧
    (t.isUnion = false → ∃ i : Item, u = .single i)

theorem rereads_of_atom {t : FieldType} (a : Atom) (htext : Spells t.render a.tokens)
    (htype : same a.type t = true) : Rereads t := by
  refine ⟨.single (.mk a 0), ?_, htype, fun _ => ⟨_, rfl⟩⟩
  rw [Union.tokens, Item.tokens, List.replicate_zero, List.append_nil]
  exact htext

/-- Alternatives one behind the other are spelled by a union of as many items. -/
theorem exists_union_of_rereads {types : List FieldType} (hne : types ≠ [])
    (hunion : ∀ t ∈ types, t.isUnion = false) (h : ∀ t ∈ types, Rereads t) :
    ∃ u : Union, Spells (Text.joinWith " | " (types.map render)) u.tokens ∧
      List.Forall₂ (fun a b => same a b = true) u.types types := by
  induction types with
  | nil => exact absurd rfl hne
  | cons t others ih =>
    obtain ⟨⟨u, hspells, hsame, hitem⟩, hothers⟩ := List.forall_mem_cons.1 h
    obtain ⟨ht, hunion⟩ := List.forall_mem_cons.1 hunion
    obtain ⟨i, rfl⟩ := hitem ht
    cases others with
    | nil => exact ⟨.single i, hspells, .cons hsame .nil⟩
    | cons t' others =>
      obtain ⟨u, hu, htypes⟩ := ih (List.cons_ne_nil _ _) hunion hothers
      exact ⟨.either i u, hspells.either hu, .cons hsame htypes⟩

/-- The alternatives come back in the order of their texts, and their union is the same set. -/
theorem rereads_union {members : List FieldType} (hflat : Flat (.union members))
    (htwo : 2 ≤ members.length) (hdistinct : members.Pairwise fun a b => same a b = false)
    (h : ∀ m ∈ members, Rereads m) : Rereads (.union members) := by
  cases hflat with
  | union hany hunion _ =>
  have hne : members ≠ [] := by
    rintro rfl
    exact absurd htwo (by decide)
  have hrender := render_eq_joinWith (.union members)
  have hperm := alternatives_union_perm hne
  generalize alternatives (.union members) = ordered at hrender hperm
  have hordered : ordered ≠ [] := by
    rintro rfl
    exact hne hperm.symm.eq_nil
  obtain ⟨u, hspells, hsame⟩ := exists_union_of_rereads hordered
    (fun t ht => hunion t (hperm.mem_iff.1 ht)) fun t ht => h t (hperm.mem_iff.1 ht)
  have hforth := (sameMembers_of_forall₂ hsame).1
  have hlength : 2 ≤ u.types.length := by
    rw [hsame.length_eq, hperm.length_eq]
    exact htwo
  have hpairwise : ordered.Pairwise fun a b => same a b = false := by
    refine hperm.symm.pairwise hdistinct fun hab => ?_
    rw [← Bool.not_eq_true] at hab ⊢
    exact fun hba => hab (same_symm hba)
  have htype : unionOf u.types = .union u.types := by
    refine unionOf_eq_self hlength (fun a ha => ?_) (fun a ha => ?_)
      (pairwise_of_forall₂ hsame hpairwise)
    · obtain ⟨b, hb, hab⟩ := hforth a ha
      rw [← isAny_of_same hab, hany b (hperm.mem_iff.1 hb)]
    · obtain ⟨b, hb, hab⟩ := hforth a ha
      rw [← isUnion_of_same hab, hunion b (hperm.mem_iff.1 hb)]
  have hmembers : SameMembers u.types members :=
    (sameMembers_of_forall₂ hsame).trans (sameMembers_of_perm hperm)
  refine ⟨u, ?_, ?_, nofun⟩
  · rw [hrender]
    exact hspells
  · rw [← u.ofAlternatives_types, ofAlternatives_eq_unionOf hlength, htype]
    exact same_union_iff.2 ⟨members, rfl, hmembers⟩

theorem Written.rereads {t : FieldType} (ht : Written t) (hlegible : Legible t) : Rereads t := by
  induction ht with
  | any => exact rereads_of_atom (.word .anything) (.word .anything) (same_refl _)
  | primitive kind =>
    exact rereads_of_atom (.word (.primitive kind)) (.word (.primitive kind)) (same_refl _)
  | @literal value _ =>
    cases hlegible with
    | literal h =>
    match value, h with
    | .text value, h =>
      refine rereads_of_atom (.quoted _) (.quoted h) ?_
      rw [Atom.type, List.drop_succ_cons, List.drop_zero, List.dropLast_concat, String.ofList_toList]
      exact same_refl _
    | .number (.integer i), _ =>
      refine rereads_of_atom (.number _) (.integer i) ?_
      rw [Atom.type, ← numberOf_eq_numberValue, numberOf_toString_int]
      exact same_refl _
    | .boolean value, _ =>
      exact rereads_of_atom (.word (.truth value)) (.word (.truth value)) (same_refl _)
  | openMap => exact rereads_of_atom (.word .openMap) (.word .openMap) (same_refl _)
  | array _ ih =>
    cases hlegible with
    | array h =>
    obtain ⟨u, hspells, hsame, -⟩ := ih h
    exact rereads_of_atom (.array u) hspells.array (same_array_iff.2 ⟨_, rfl, hsame⟩)
  | union hflat htwo hdistinct _ ih =>
    cases hlegible with
    | union h => exact rereads_union hflat htwo hdistinct fun m hm => ih m hm (h m hm)

/--
A type that was read is rendered as an expression of the same type, unless a quote in one of its texts
or a double among its numbers keeps it from being written.
-/
theorem exists_parse_render {source : String} {t : FieldType} (h : parse source = .ok t)
    (hlegible : Legible t) : ∃ again, parse t.render = .ok again ∧ same again t = true := by
  obtain ⟨u, hspells, hsame, -⟩ := (written_of_parse h).rereads hlegible
  exact ⟨u.type, parse_eq_ok_iff.2 ⟨u, hspells.splitsInto 0, rfl⟩, hsame⟩

/-- The tree of `array<'b' | "a">[] | null | (3 | true)[]`. -/
def nestedUnion : Union :=
  let letters : Union := .either (.mk (.quoted "'b'".toList) 0)
    (.single (.mk (.quoted "\"a\"".toList) 0))
  let flags : Union := .either (.mk (.number ['3']) 0) (.single (.mk (.word (.truth true)) 0))
  .either (.mk (.array letters) 1)
    (.either (.mk (.word (.primitive .null)) 0) (.single (.mk (.enclosed flags) 1)))

/-- What it denotes. -/
def nestedType : FieldType :=
  union [array (array (union [text "b", text "a"])), primitive .null,
    array (union [literal (.number (.integer 3)), literal (.boolean true)])]

example : nestedType.render = "array<3 | true> | array<array<'a' | 'b'>> | null" := by
  decide +kernel

theorem exists_parse_render_nested :
    parse "array<'b' | \"a\">[] | null | (3 | true)[]" = .ok nestedType ∧ Legible nestedType ∧
      ∃ again, parse nestedType.render = .ok again ∧ same again nestedType = true := by
  have htokens : tokens "array<'b' | \"a\">[] | null | (3 | true)[]" = .ok nestedUnion.tokens := by
    decide +kernel
  have hletters : unionOf [text "b", text "a"] = union [text "b", text "a"] :=
    unionOf_eq_self (by decide) (by decide) (by decide) (by decide +kernel)
  have hflags : unionOf [literal (.number (.integer 3)), literal (.boolean true)] =
      union [literal (.number (.integer 3)), literal (.boolean true)] :=
    unionOf_eq_self (by decide) (by decide) (by decide) (by decide +kernel)
  have htype : nestedUnion.type = nestedType := by
    change unionOf [array (array (unionOf [text "b", text "a"])), primitive .null,
      array (unionOf [literal (.number (.integer 3)), literal (.boolean true)])] = _
    rw [hletters, hflags]
    exact unionOf_eq_self (by decide) (by decide) (by decide) (by decide +kernel)
  have hparse := parse_eq_ok_iff.2 ⟨nestedUnion, htokens, htype⟩
  have hlegibleLetters : Legible (union [text "b", text "a"]) :=
    .union (List.forall_mem_cons.2 ⟨.literal (by decide),
      List.forall_mem_singleton.2 (.literal (by decide))⟩)
  have hlegibleFlags : Legible (union [literal (.number (.integer 3)), literal (.boolean true)]) :=
    .union (List.forall_mem_cons.2 ⟨.literal (by decide),
      List.forall_mem_singleton.2 (.literal (by decide))⟩)
  have hlegible : Legible nestedType :=
    .union (List.forall_mem_cons.2 ⟨.array (.array hlegibleLetters),
      List.forall_mem_cons.2 ⟨.primitive .null, List.forall_mem_singleton.2 (.array hlegibleFlags)⟩⟩)
  exact ⟨hparse, hlegible, exists_parse_render hparse hlegible⟩

end FieldType
end SchemaAtlas
