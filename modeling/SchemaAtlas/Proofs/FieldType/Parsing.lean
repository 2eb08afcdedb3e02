import Mathlib.Data.List.TakeWhile
import SchemaAtlas.Proofs.Except
import SchemaAtlas.Proofs.FieldType.Grammar

/-!
# What the reader of type expressions accepts

A text is read exactly if it splits into tokens and these have a derivation tree; the type that is read
is then the one that the tree denotes, and there is no other tree. The two directions follow the
recursion of the reader and the shape of the tree. The bound of the reader counts tokens: a tree with
no more tokens than the bound is read to its end.
-/
namespace SchemaAtlas.FieldType

open Grammar

variable {source : String}

/-! ### The steps of the reader -/

/-- A whole union and what is left behind it, with the reader's bound. -/
def readUnion (source : String) (bound : Nat) (tokens : List Token) : Reading := do
  let (types, rest) ← readAlternatives source bound tokens
  return (ofAlternatives types, rest)

/-- What follows an alternative once its brackets are read. -/
def readOthers (source : String) (bound : Nat) (type : FieldType) :
    List Token → Except ExpressionError (List FieldType × List Token)
  | [] => .ok ([type], [])
  | token :: rest =>
    if token = Token.symbolOf "|" then do
      let (types, rest) ← readAlternatives source bound rest
      return (type :: types, rest)
    else .ok ([type], token :: rest)

theorem readAlternatives_succ (source : String) (bound : Nat) (tokens : List Token) :
    readAlternatives source (bound + 1) tokens = (do
      let read ← readAtom source (readUnion source bound) tokens
      readOthers source bound (readBrackets read.1 read.2).1 (readBrackets read.1 read.2).2) := by
  rw [readAlternatives]
  refine congrArg _ (funext fun read => ?_)
  obtain ⟨atom, rest⟩ := read
  cases hbrackets : readBrackets atom rest with
  | mk type others => cases others <;> simp only [hbrackets] <;> rfl

theorem readBrackets_replicate (t : FieldType) (n : Nat) {rest : List Token}
    (hrest : EndsItem rest) :
    readBrackets t (List.replicate n (Token.symbolOf "[]") ++ rest) = (array^[n] t, rest) := by
  induction n generalizing t with
  | zero =>
    cases rest with
    | nil => rfl
    | cons token rest =>
      have hne : token ≠ Token.symbolOf "[]" := fun h => hrest (congrArg some h)
      rw [List.replicate_zero, List.nil_append, readBrackets, if_neg hne]
      rfl
  | succ n ih =>
    rw [List.replicate_succ, List.cons_append, readBrackets, if_pos rfl, ih,
      Function.iterate_succ_apply]

theorem exists_of_readBrackets (t : FieldType) (tokens : List Token) :
    ∃ n, tokens = List.replicate n (Token.symbolOf "[]") ++ (readBrackets t tokens).2 ∧
      (readBrackets t tokens).1 = array^[n] t := by
  induction tokens generalizing t with
  | nil => exact ⟨0, rfl, rfl⟩
  | cons token rest ih =>
    by_cases htoken : token = Token.symbolOf "[]"
    · obtain ⟨n, hrest, htype⟩ := ih (array t)
      rw [readBrackets, if_pos htoken]
      refine ⟨n + 1, ?_, htype⟩
      rw [List.replicate_succ, List.cons_append, ← hrest, htoken]
    · rw [readBrackets, if_neg htoken]
      exact ⟨0, rfl, rfl⟩

/-! ### What is read has a tree -/

/-- Every union that is read within the bound has a tree. -/
def SoundWithin (source : String) (bound : Nat) : Prop :=
  ∀ tokens types rest, readAlternatives source bound tokens = .ok (types, rest) →
    ∃ u : Union, tokens = u.tokens ++ rest ∧ u.types = types

theorem eq_cons_of_expectSymbol {symbol : String} {tokens rest : List Token}
    (h : expectSymbol source symbol tokens = .ok rest) :
    tokens = Token.symbolOf symbol :: rest := by
  cases tokens with
  | nil => cases h
  | cons token others =>
    rw [expectSymbol] at h
    split at h
    · rename_i htoken
      rw [htoken, Except.ok.inj h]
    · cases h

theorem SoundWithin.readEnclosed {bound : Nat} (hsound : SoundWithin source bound) {closing : String}
    {t : FieldType} {tokens rest : List Token}
    (h : readEnclosed source closing (readUnion source bound) tokens = .ok (t, rest)) :
    ∃ u : Union, tokens = u.tokens ++ Token.symbolOf closing :: rest ∧ u.type = t := by
  obtain ⟨⟨inner, behind⟩, hinner, hbehind⟩ := exists_of_bind_eq_ok h
  obtain ⟨⟨types, _⟩, htypes, hread⟩ := exists_of_bind_eq_ok hinner
  obtain ⟨left, hclosing, hresult⟩ := exists_of_bind_eq_ok hbehind
  obtain ⟨rfl, rfl⟩ := Prod.mk.inj (Except.ok.inj hread)
  obtain ⟨rfl, rfl⟩ := Prod.mk.inj (Except.ok.inj hresult)
  obtain ⟨u, rfl, rfl⟩ := hsound _ _ _ htypes
  exact ⟨u, by rw [eq_cons_of_expectSymbol hclosing], u.ofAlternatives_types.symm⟩

theorem SoundWithin.readAtom {bound : Nat} (hsound : SoundWithin source bound) {t : FieldType}
    {tokens rest : List Token}
    (h : readAtom source (readUnion source bound) tokens = .ok (t, rest)) :
    ∃ a : Atom, tokens = a.tokens ++ rest ∧ a.type = t := by
  cases tokens with
  | nil => cases h
  | cons token others =>
    obtain ⟨kind, lexeme⟩ := token
    cases kind with
    | quoted =>
      obtain ⟨rfl, rfl⟩ := Prod.mk.inj (Except.ok.inj h)
      exact ⟨.quoted lexeme, rfl, rfl⟩
    | number =>
      obtain ⟨rfl, rfl⟩ := Prod.mk.inj (Except.ok.inj h)
      exact ⟨.number lexeme, rfl, by rw [Atom.type, numberOf_eq_numberValue]⟩
    | symbol =>
      simp only [FieldType.readAtom] at h
      split at h
      · rename_i htoken
        obtain ⟨u, rfl, rfl⟩ := hsound.readEnclosed h
        exact ⟨.enclosed u, by simp [Atom.tokens, htoken], rfl⟩
      · cases h
    | name =>
      simp only [FieldType.readAtom] at h
      split at h
      · rename_i hname
        obtain ⟨behind, hopening, hbehind⟩ := exists_of_bind_eq_ok h
        obtain ⟨⟨element, _⟩, helement, hresult⟩ := exists_of_bind_eq_ok hbehind
        obtain ⟨rfl, rfl⟩ := Prod.mk.inj (Except.ok.inj hresult)
        obtain ⟨u, rfl, rfl⟩ := hsound.readEnclosed helement
        have htoken : (⟨.name, lexeme⟩ : Token) = arrayToken := by
          rw [arrayToken, ← hname, Token.text, String.toList_ofList]
        refine ⟨.array u, ?_, rfl⟩
        rw [htoken, eq_cons_of_expectSymbol hopening]
        simp [Atom.tokens]
      · split at h
        · rename_i type hnamed
          obtain ⟨rfl, rfl⟩ := Prod.mk.inj (Except.ok.inj h)
          obtain ⟨w, hspelling, rfl⟩ := Word.exists_of_named? hnamed
          refine ⟨.word w, ?_, rfl⟩
          rw [Atom.tokens, Word.token, hspelling, Token.text, String.toList_ofList]
          rfl
        · cases h

theorem soundWithin (source : String) (bound : Nat) : SoundWithin source bound := by
  induction bound with
  | zero => exact fun tokens types rest h => by cases h
  | succ bound ih =>
    intro tokens types rest h
    rw [readAlternatives_succ] at h
    obtain ⟨⟨atom, behind⟩, hatom, hothers⟩ := exists_of_bind_eq_ok h
    obtain ⟨a, rfl, rfl⟩ := ih.readAtom hatom
    obtain ⟨n, hbehind, htype⟩ := exists_of_readBrackets a.type behind
    have hitem : a.tokens ++ behind = (Item.mk a n).tokens ++ (readBrackets a.type behind).2 := by
      rw [Item.tokens, List.append_assoc, ← hbehind]
    rw [hitem]
    have htype : (readBrackets a.type behind).1 = (Item.mk a n).type := htype
    simp only [htype] at hothers
    cases hleft : (readBrackets a.type behind).2 with
    | nil =>
      rw [hleft] at hothers
      obtain ⟨rfl, rfl⟩ := Prod.mk.inj (Except.ok.inj hothers)
      exact ⟨.single (.mk a n), rfl, rfl⟩
    | cons token left =>
      rw [hleft, readOthers] at hothers
      split at hothers
      · rename_i hbar
        obtain ⟨⟨types, _⟩, hread, hresult⟩ := exists_of_bind_eq_ok hothers
        obtain ⟨rfl, rfl⟩ := Prod.mk.inj (Except.ok.inj hresult)
        obtain ⟨u, rfl, rfl⟩ := ih _ _ _ hread
        exact ⟨.either (.mk a n) u, by rw [Union.tokens, hbar, List.append_assoc]; rfl, rfl⟩
      · obtain ⟨rfl, rfl⟩ := Prod.mk.inj (Except.ok.inj hothers)
        exact ⟨.single (.mk a n), rfl, rfl⟩

/-! ### What has a tree is read -/

/-- Every union of a number of tokens within the bound is read, up to where it ends. -/
def CompleteWithin (source : String) (bound : Nat) : Prop :=
  ∀ (u : Union) (rest : List Token), u.tokens.length ≤ bound → EndsUnion rest →
    readAlternatives source bound (u.tokens ++ rest) = .ok (u.types, rest)

theorem expectSymbol_cons (symbol : String) (rest : List Token) :
    expectSymbol source symbol (Token.symbolOf symbol :: rest) = .ok rest := by
  rw [expectSymbol, if_pos rfl]

theorem CompleteWithin.readEnclosed {bound : Nat} (hcomplete : CompleteWithin source bound) (u : Union)
    (hbound : u.tokens.length ≤ bound) {closing : String} {rest : List Token}
    (hclosing : EndsUnion (Token.symbolOf closing :: rest)) :
    FieldType.readEnclosed source closing (readUnion source bound)
      (u.tokens ++ Token.symbolOf closing :: rest) = .ok (u.type, rest) := by
  rw [FieldType.readEnclosed, readUnion, hcomplete u _ hbound hclosing, ← u.ofAlternatives_types]
  change (expectSymbol source closing (Token.symbolOf closing :: rest) >>= fun rest =>
    pure (ofAlternatives u.types, rest)) = _
  rw [expectSymbol_cons]
  rfl

theorem CompleteWithin.readAtom {bound : Nat} (hcomplete : CompleteWithin source bound) (a : Atom)
    (hbound : a.tokens.length ≤ bound + 1) (rest : List Token) :
    FieldType.readAtom source (readUnion source bound) (a.tokens ++ rest) = .ok (a.type, rest) := by
  cases a with
  | quoted lexeme => rfl
  | number lexeme =>
    rw [Atom.type, ← numberOf_eq_numberValue]
    rfl
  | enclosed inner =>
    have hinner : inner.tokens.length ≤ bound := by
      simp only [Atom.tokens, List.length_cons, List.length_append] at hbound
      omega
    rw [Atom.tokens, List.cons_append, List.append_assoc]
    exact hcomplete.readEnclosed inner hinner (endsUnion_parenthesis rest)
  | word w =>
    have hname : w.token.text = w.spelling := String.ofList_toList
    simp only [Atom.tokens, List.cons_append, List.nil_append, FieldType.readAtom]
    rw [hname, if_neg w.spelling_ne_array, Word.named?_spelling]
    rfl
  | array element =>
    have helement : element.tokens.length ≤ bound := by
      simp only [Atom.tokens, List.length_cons, List.length_append] at hbound
      omega
    have hread := hcomplete.readEnclosed element helement (endsUnion_angle rest)
    rw [Atom.tokens, List.cons_append, List.cons_append, List.append_assoc]
    change (expectSymbol source "<" (Token.symbolOf "<" :: (element.tokens ++
      Token.symbolOf ">" :: rest)) >>= fun behind =>
        FieldType.readEnclosed source ">" (readUnion source bound) behind >>= fun read =>
          pure (array read.1, read.2)) = _
    rw [expectSymbol_cons]
    change (FieldType.readEnclosed source ">" (readUnion source bound) (element.tokens ++
      Token.symbolOf ">" :: rest) >>= fun read => pure (array read.1, read.2)) = _
    rw [hread]
    rfl

/-- An item is read with its brackets, and reading goes on with what stands behind them. -/
theorem CompleteWithin.readItem {bound : Nat} (hcomplete : CompleteWithin source bound) (i : Item)
    (hbound : i.tokens.length ≤ bound + 1) {rest : List Token} (hrest : EndsItem rest) :
    readAlternatives source (bound + 1) (i.tokens ++ rest) =
      readOthers source bound i.type rest := by
  cases i with
  | mk atom n =>
    have hatom : atom.tokens.length ≤ bound + 1 := by
      rw [Item.tokens, List.length_append] at hbound
      omega
    rw [readAlternatives_succ, Item.tokens, List.append_assoc, hcomplete.readAtom atom hatom]
    change readOthers source bound (readBrackets atom.type _).1 (readBrackets atom.type _).2 = _
    rw [readBrackets_replicate _ _ hrest]
    rfl

theorem completeWithin (source : String) (bound : Nat) : CompleteWithin source bound := by
  induction bound with
  | zero =>
    intro u rest hbound
    cases u with
    | single item =>
      have hpos := item.length_tokens_pos
      rw [Union.tokens] at hbound
      omega
    | either item others =>
      rw [Union.tokens, List.length_append, List.length_cons] at hbound
      omega
  | succ bound ih =>
    intro u rest hbound hrest
    cases u with
    | single item =>
      rw [Union.tokens] at hbound ⊢
      rw [ih.readItem item hbound hrest.1]
      cases rest with
      | nil => rfl
      | cons token left =>
        have hne : token ≠ Token.symbolOf "|" := fun h => hrest.2 (congrArg some h)
        rw [readOthers, if_neg hne]
        rfl
    | either item others =>
      rw [Union.tokens, List.length_append, List.length_cons] at hbound
      have hitem : item.tokens.length ≤ bound + 1 := by omega
      have hothers : others.tokens.length ≤ bound := by
        have hpos := item.length_tokens_pos
        omega
      rw [Union.tokens, List.append_assoc, List.cons_append,
        ih.readItem item hitem (endsItem_bar _), readOthers, if_pos rfl, ih others rest hothers hrest]
      rfl

/-! ### Whole texts -/

theorem ofTokens_eq_ok_iff {tokens : List Token} {t : FieldType} :
    ofTokens source tokens = .ok t ↔ ∃ u : Union, u.tokens = tokens ∧ u.type = t := by
  constructor
  · intro h
    obtain ⟨⟨types, rest⟩, hread, hend⟩ := exists_of_bind_eq_ok h
    obtain ⟨u, rfl, rfl⟩ := soundWithin source _ _ _ _ hread
    cases rest with
    | nil =>
      have htype : ofAlternatives u.types = t := Except.ok.inj hend
      exact ⟨u, (List.append_nil _).symm, u.ofAlternatives_types.symm.trans htype⟩
    | cons token left => cases hend
  · intro h
    obtain ⟨u, rfl, rfl⟩ := h
    have hread := completeWithin source (u.tokens.length + 1) u [] (Nat.le_succ _) endsUnion_nil
    rw [List.append_nil] at hread
    rw [ofTokens, hread, ← u.ofAlternatives_types]
    rfl

theorem tokens_of_isBlankText (h : Text.isBlankText source = true) : tokens source = .ok [] := by
  have hblank : Text.dropBlanks source.toList = [] := by
    refine List.dropWhile_eq_nil_iff.2 fun c hc => ?_
    exact List.all_eq_true.1 h c hc
  rw [tokens, tokensFrom]
  split
  · rfl
  · rename_i hcons
    rw [hblank] at hcons
    cases hcons

/-- A text is read exactly if its tokens have a tree, and as the type of that tree. -/
theorem parse_eq_ok_iff {t : FieldType} :
    parse source = .ok t ↔ ∃ u : Union, tokens source = .ok u.tokens ∧ u.type = t := by
  unfold parse
  split
  · rename_i hblank
    rw [tokens_of_isBlankText hblank]
    constructor
    · intro h
      cases h
    · intro h
      obtain ⟨u, hu, _⟩ := h
      exact absurd (Except.ok.inj hu).symm u.tokens_ne_nil
  · cases htokens : tokens source with
    | error offset =>
      constructor
      · intro h
        cases h
      · intro h
        obtain ⟨u, hu, _⟩ := h
        cases hu
    | ok row =>
      change ofTokens source row = .ok t ↔ _
      rw [ofTokens_eq_ok_iff]
      simp only [Except.ok.injEq, eq_comm]

/--
A text is a type expression exactly if it splits into tokens that the grammar derives. The type is then
the one that the derivation denotes, and there is no other derivation. All other texts are refused with
an error of the reader.
-/
theorem parse_iff_derivation (source : String) :
    (∀ t, parse source = .ok t ↔ ∃ u : Union, tokens source = .ok u.tokens ∧ u.type = t) ∧
    (∀ u u' : Union, u.tokens = u'.tokens → u = u') ∧
    ((¬ ∃ u : Union, tokens source = .ok u.tokens) → ∃ e, parse source = .error e) := by
  refine ⟨fun t => parse_eq_ok_iff, fun u u' => Union.tokens_injective, fun hnone => ?_⟩
  cases hparse : parse source with
  | error e => exact ⟨e, rfl⟩
  | ok t =>
    obtain ⟨u, hu, _⟩ := parse_eq_ok_iff.1 hparse
    exact absurd ⟨u, hu⟩ hnone

/-- The tree of `array<'a' | 2.50>[]`. -/
def scoresUnion : Union :=
  let score : Union := .either (.mk (.quoted "'a'".toList) 0) (.single (.mk (.number "2.50".toList) 0))
  .single (.mk (.array score) 1)

theorem parse_iff_derivation_scores :
    parse "array<'a' | 2.50>[]" =
        .ok (array (array (union [text "a", literal (.number (.double (.finite (5 / 2))))]))) ∧
      ∃ e, parse "array<'a'" = .error e := by
  have htokens : tokens "array<'a' | 2.50>[]" = .ok scoresUnion.tokens := by decide +kernel
  have hnumber : numberValue "2.50".toList = .double (.finite (5 / 2)) := by decide +kernel
  have hunion (n : Number) : unionOf [text "a", literal (.number n)] =
      union [text "a", literal (.number n)] := by
    simp [unionOf, text, isAny, members, distinctBy, addDistinct, same, Literal.same, ofMembers]
  have htype : scoresUnion.type =
      array (array (union [text "a", literal (.number (.double (.finite (5 / 2))))])) := by
    rw [← hnumber, ← hunion]
    rfl
  refine ⟨((parse_iff_derivation _).1 _).2 ⟨scoresUnion, htokens, htype⟩, ?_⟩
  refine (parse_iff_derivation "array<'a'").2.2 fun h => ?_
  obtain ⟨u, hu⟩ := h
  have hparse := ((parse_iff_derivation _).1 u.type).2 ⟨u, hu, rfl⟩
  have hrefused : (parse "array<'a'").isOk = false := by decide +kernel
  rw [hparse] at hrefused
  cases hrefused

end SchemaAtlas.FieldType
