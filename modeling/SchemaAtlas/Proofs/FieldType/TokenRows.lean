import SchemaAtlas.Proofs.FieldType.Parsing
import SchemaAtlas.Proofs.FieldType.TokenPattern

/-!
# The tokens of a text

The lexer takes from the start of a text, time after time, what the pattern of tokens matches there.
It ends on every text: each match takes a lexeme, which is not empty. What it takes is the text again,
up to an end of blanks or to the place that it reports.
-/
namespace SchemaAtlas.FieldType

open Text (Pattern Match)

/--
The tokens that the pattern reads one after another from the start of a text, each of them behind
blanks only, and what they leave of the text.
-/
inductive Reads : List Char → List Token → List Char → Prop
  | none (cs : List Char) : Reads cs [] cs
  | token {blanks rest last : List Char} {t : Token} {row : List Token} :
      (∀ c ∈ blanks, Text.isBlank c = true) →
      tokenPattern.first? (blanks ++ t.lexeme ++ rest) =
        some ⟨blanks ++ t.lexeme, rest, some (t.kind, t.lexeme)⟩ →
      Reads rest row last → Reads (blanks ++ t.lexeme ++ rest) (t :: row) last

/-- Every match reads blanks and a lexeme that is not empty, which it has in a group of its kind. -/
theorem exists_token_of_first? {cs : List Char} {m : Match TokenKind}
    (h : tokenPattern.first? cs = some m) :
    ∃ (blanks : List Char) (t : Token), (∀ c ∈ blanks, Text.isBlank c = true) ∧ t.lexeme ≠ [] ∧
      cs = blanks ++ t.lexeme ++ m.rest ∧ m.read = blanks ++ t.lexeme ∧
        m.group = some (t.kind, t.lexeme) := by
  have hlossless := Pattern.read_append_rest_of_first? h
  rw [first?_tokenPattern] at h
  obtain ⟨t, ht, rfl⟩ := Option.map_eq_some_iff.1 h
  refine ⟨cs.takeWhile Text.isBlank, t, ?_, scanToken?_lexeme_ne_nil ht, hlossless.symm, rfl, rfl⟩
  intro c hc
  exact List.mem_takeWhile_imp hc

theorem tokensFrom_of_first?_eq_some {cs : List Char} {m : Match TokenKind} {t : Token}
    (h : tokenPattern.first? cs = some m) (hgroup : m.group = some (t.kind, t.lexeme))
    (offset : Nat) :
    tokensFrom offset cs = (tokensFrom (offset + m.read.length) m.rest).map (t :: ·) := by
  rw [first?_tokenPattern] at h
  obtain ⟨found, hscan, rfl⟩ := Option.map_eq_some_iff.1 h
  obtain rfl : found = t := by
    cases found
    cases t
    simpa using hgroup
  cases hstart : Text.dropBlanks cs with
  | nil =>
    rw [hstart] at hscan
    cases hscan
  | cons c rest =>
    rw [hstart] at hscan
    have hlength : cs.length - (c :: rest).length = (cs.takeWhile Text.isBlank).length := by
      have hsplit : cs.takeWhile Text.isBlank ++ Text.dropBlanks cs = cs :=
        List.takeWhile_append_dropWhile
      have h := congrArg List.length hsplit
      rw [hstart, List.length_append] at h
      omega
    rw [tokensFrom_of_dropBlanks_eq_cons hstart, hscan, hlength]
    simp [Nat.add_assoc]

theorem tokensFrom_of_first?_eq_none {cs : List Char} (h : tokenPattern.first? cs = none)
    (hblank : Text.dropBlanks cs ≠ []) (offset : Nat) : tokensFrom offset cs = .error offset := by
  rw [first?_tokenPattern, Option.map_eq_none_iff] at h
  obtain ⟨c, rest, hstart⟩ := List.exists_cons_of_ne_nil hblank
  rw [hstart] at h
  rw [tokensFrom_of_dropBlanks_eq_cons hstart, h]

/-- The lexer goes through the tokens that the pattern reads, counting the characters behind it. -/
theorem Reads.tokensFrom_eq {cs last : List Char} {row : List Token} (h : Reads cs row last)
    (offset : Nat) :
    ∃ behind, behind + last.length = offset + cs.length ∧
      tokensFrom offset cs = (tokensFrom behind last).map (row ++ ·) := by
  induction h generalizing offset with
  | none cs =>
    refine ⟨offset, rfl, ?_⟩
    cases tokensFrom offset cs <;> rfl
  | @token blanks rest last t row _ hfirst _ ih =>
    obtain ⟨behind, hbehind, hrow⟩ := ih (offset + (blanks ++ t.lexeme).length)
    refine ⟨behind, ?_, ?_⟩
    · have hsplit : (blanks ++ t.lexeme ++ rest).length =
          (blanks ++ t.lexeme).length + rest.length := List.length_append
      omega
    · rw [tokensFrom_of_first?_eq_some hfirst rfl, hrow]
      cases tokensFrom behind last <;> rfl

/-- Reading tokens comes to an end, at the latest where nothing is left. -/
theorem exists_reads (cs : List Char) :
    ∃ row last, Reads cs row last ∧
      (Text.dropBlanks last = [] ∨ tokenPattern.first? last = none) := by
  induction hlength : cs.length using Nat.strong_induction_on generalizing cs with
  | h n ih =>
    cases hfirst : tokenPattern.first? cs with
    | none => exact ⟨[], cs, .none cs, .inr hfirst⟩
    | some m =>
      obtain ⟨blanks, t, hblanks, hne, rfl, hread, hgroup⟩ := exists_token_of_first? hfirst
      have hshorter : m.rest.length < n := by
        have hpos := List.length_pos_iff.2 hne
        simp only [List.length_append] at hlength
        omega
      obtain ⟨row, last, hrow, hlast⟩ := ih m.rest.length hshorter m.rest rfl
      refine ⟨t :: row, last, .token hblanks ?_ hrow, hlast⟩
      rw [hfirst, ← hread, ← hgroup]

/-- A row of tokens is no longer than its text. -/
theorem Reads.length_le {cs last : List Char} {row : List Token} (h : Reads cs row last) :
    row.length + last.length ≤ cs.length := by
  induction h with
  | none cs => simp
  | token _ hfirst _ ih =>
    obtain ⟨_, t, _, hne, _, _, hgroup⟩ := exists_token_of_first? hfirst
    have hlexeme := (Prod.mk.inj (Option.some.inj hgroup)).2
    have hpos := List.length_pos_iff.2 hne
    simp only [List.length_cons, List.length_append, hlexeme]
    omega

/-- The tokens are all that stands in a text between blanks. -/
def ReadsThrough (cs : List Char) (row : List Token) : Prop :=
  ∃ last, Reads cs row last ∧ ∀ c ∈ last, Text.isBlank c = true

/--
Tokens are read up to so many characters, and what is left is not blank, but there is no other token
at its start.
-/
def StopsAt (cs : List Char) (offset : Nat) : Prop :=
  ∃ row last, Reads cs row last ∧ offset + last.length = cs.length ∧
    tokenPattern.first? last = none ∧ ∃ c ∈ last, Text.isBlank c = false

theorem tokens_eq_ok_of_readsThrough {text : String} {row : List Token}
    (h : ReadsThrough text.toList row) : tokens text = .ok row := by
  obtain ⟨last, hreads, hblank⟩ := h
  obtain ⟨behind, -, htokens⟩ := hreads.tokensFrom_eq 0
  have hlast : Text.dropBlanks last = [] := List.dropWhile_eq_nil_iff.2 hblank
  rw [tokens, htokens, tokensFrom_of_dropBlanks_eq_nil hlast]
  simp [Except.map]

theorem tokens_eq_error_of_stopsAt {text : String} {offset : Nat}
    (h : StopsAt text.toList offset) : tokens text = .error offset := by
  obtain ⟨row, last, hreads, hoffset, hfirst, c, hc, hblank⟩ := h
  obtain ⟨behind, hbehind, htokens⟩ := hreads.tokensFrom_eq 0
  have hlast : Text.dropBlanks last ≠ [] := by
    intro hnil
    rw [List.dropWhile_eq_nil_iff.1 hnil c hc] at hblank
    cases hblank
  obtain rfl : behind = offset := by omega
  rw [tokens, htokens, tokensFrom_of_first?_eq_none hfirst hlast]
  rfl

theorem readsThrough_or_stopsAt (cs : List Char) :
    (∃ row, ReadsThrough cs row) ∨ ∃ offset, StopsAt cs offset := by
  obtain ⟨row, last, hreads, hlast⟩ := exists_reads cs
  by_cases hblank : ∀ c ∈ last, Text.isBlank c = true
  · exact .inl ⟨row, last, hreads, hblank⟩
  · have hoffset : last.length ≤ cs.length := by
      have h := hreads.length_le
      omega
    have hfirst : tokenPattern.first? last = none := by
      apply hlast.resolve_left
      exact fun hnil => hblank (List.dropWhile_eq_nil_iff.1 hnil)
    simp only [not_forall, Bool.not_eq_true] at hblank
    obtain ⟨c, hc, hblank⟩ := hblank
    exact .inr ⟨cs.length - last.length, row, last, hreads, by omega, hfirst, c, hc, hblank⟩

theorem parse_of_tokens_eq_error {text : String} {offset : Nat}
    (h : tokens text = .error offset) : parse text = .error (.invalidCharacter text offset) := by
  have hblank : ¬ Text.isBlankText text = true := by
    intro hblank
    rw [tokens_of_isBlankText hblank] at h
    cases h
  rw [parse, if_neg hblank, h]

/--
Every text is read through or stopped at one offset, and that is what the lexer answers. The tokens
are those that the pattern matches one after another, with nothing but blanks between them, before
them and behind them; the offset is the end of the last token before the first place where none
starts. Whatever the pattern matches, it has read something and has it in the group of a kind.
-/
theorem tokens_of_text (text : String) :
    ((∃ row, tokens text = .ok row ∧ row.length ≤ text.length ∧ ReadsThrough text.toList row) ∨
      ∃ offset, tokens text = .error offset ∧
        parse text = .error (.invalidCharacter text offset) ∧ StopsAt text.toList offset) ∧
    (∀ row, ReadsThrough text.toList row → tokens text = .ok row) ∧
    (∀ offset, StopsAt text.toList offset → tokens text = .error offset) ∧
    ∀ cs m, tokenPattern.first? cs = some m → m.read ≠ [] ∧ m.group ≠ none := by
  refine ⟨?_, fun row => tokens_eq_ok_of_readsThrough, fun offset => tokens_eq_error_of_stopsAt,
    fun cs m hfirst => ?_⟩
  · obtain ⟨row, hrow⟩ | ⟨offset, hoffset⟩ := readsThrough_or_stopsAt text.toList
    · have hlength : row.length ≤ text.length := by
        obtain ⟨last, hreads, -⟩ := hrow
        have h := hreads.length_le
        rw [String.length_toList] at h
        omega
      exact .inl ⟨row, tokens_eq_ok_of_readsThrough hrow, hlength, hrow⟩
    · have herror := tokens_eq_error_of_stopsAt hoffset
      exact .inr ⟨offset, herror, parse_of_tokens_eq_error herror, hoffset⟩
  · obtain ⟨blanks, t, -, hne, -, hread, hgroup⟩ := exists_token_of_first? hfirst
    rw [hread, hgroup]
    simp [hne]

/--
A name may follow a number without a blank, and a point without a digit behind it is no part of a
number, so the text stops at the point.
-/
theorem tokens_of_text_numbers :
    (∃ row, ReadsThrough "1a []".toList row ∧ row.map Token.text = ["1", "a", "[]"]) ∧
      StopsAt "a 1.".toList 3 := by
  have hrow : (tokens "1a []").map (·.map Token.text) = .ok ["1", "a", "[]"] := by decide +kernel
  have hpoint : tokens "a 1." = .error 3 := by decide +kernel
  constructor
  · obtain ⟨⟨row, htokens, -, hreads⟩ | ⟨offset, htokens, -⟩, -⟩ := tokens_of_text "1a []"
    · rw [htokens] at hrow
      exact ⟨row, hreads, Except.ok.inj hrow⟩
    · rw [htokens] at hrow
      cases hrow
  · obtain ⟨⟨row, htokens, -⟩ | ⟨offset, htokens, -, hstops⟩, -⟩ := tokens_of_text "a 1."
    · cases htokens.symm.trans hpoint
    · obtain rfl : offset = 3 := Except.error.inj (htokens.symm.trans hpoint)
      exact hstops

end SchemaAtlas.FieldType
