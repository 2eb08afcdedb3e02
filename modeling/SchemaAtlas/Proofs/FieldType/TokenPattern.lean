import SchemaAtlas.Proofs.FieldType.Lexing
import SchemaAtlas.Proofs.Text.Pattern

/-!
# The pattern of tokens

A token as a pattern: blanks, and behind them a quoted text, a number, a name or a symbol. The scanner
of lexemes goes by the first character and never back, the pattern tries one kind after another, and
shorter runs after longer ones. Both find the same token, since no character begins lexemes of two
kinds and no shorter run leads to a match.
-/
namespace SchemaAtlas.FieldType

open Text (Pattern Match)

/-- A text in quotes of one kind, with no such quote inside. -/
def quotedBy (quote : Char) : Pattern TokenKind :=
  .sequence (.one (· = quote)) (.sequence (.run (· != quote)) (.one (· = quote)))

def digitsPattern : Pattern TokenKind := .sequence (.one Text.isDigit) (.run Text.isDigit)

def fractionPattern : Pattern TokenKind := .sequence (.one (· = '.')) digitsPattern

/-- Digits with an optional fraction. -/
def unsignedPattern : Pattern TokenKind := .sequence digitsPattern (.optional fractionPattern)

def numberPattern : Pattern TokenKind := .sequence (.optional (.one (· = '-'))) unsignedPattern

def namePattern : Pattern TokenKind := .sequence (.one startsName) (.run continuesName)

def symbolPattern : Pattern TokenKind :=
  .either (.sequence (.one (· = '[')) (.one (· = ']'))) (.one (['|', '<', '>', '(', ')'].contains ·))

/-- A lexeme of any kind, in a group of its kind. -/
def lexemePattern : Pattern TokenKind :=
  .either (.group .quoted (.either (quotedBy '\x27') (quotedBy '\x22')))
    (.either (.group .number numberPattern)
      (.either (.group .name namePattern) (.group .symbol symbolPattern)))

/-- A lexeme with the blanks in front of it. -/
def tokenPattern : Pattern TokenKind := .sequence (.run Text.isBlank) lexemePattern

/-! ### The lexemes of each kind -/

theorem lexeme?_quotedBy_of_ne {quote c : Char} (h : c ≠ quote) (cs : List Char) :
    (quotedBy quote).lexeme? (c :: cs) = none := by
  simp [quotedBy, Pattern.lexeme?, h]

/-- No shorter run in front of the closing quote is tried with success. -/
theorem lexeme?_quotedBy (quote : Char) (cs : List Char) :
    (quotedBy quote).lexeme? (quote :: cs) = scanQuoted? quote cs := by
  have hinside : ∀ (c : Char) (rest : List Char), (c != quote) = true →
      (.one (· = quote) : Pattern TokenKind).first? (c :: rest) = none := by
    intro c rest hc
    simp_all [Pattern.first?_one_cons]
  simp only [Pattern.lexeme?, quotedBy, Pattern.first?_one_sequence, decide_true, if_true,
    Pattern.first?_run_sequence hinside, scanQuoted?]
  cases hclosing : cs.dropWhile (· != quote) with
  | nil => rfl
  | cons c rest =>
    have hc : c = quote := by
      have hhead := List.head?_dropWhile_not (· != quote) cs
      simpa [hclosing] using hhead
    simp [hc, Match.join, Match.push]

theorem first?_digitsPattern (cs : List Char) :
    digitsPattern.first? cs =
      if cs.takeWhile Text.isDigit = [] then none
      else some ⟨cs.takeWhile Text.isDigit, cs.dropWhile Text.isDigit, none⟩ := by
  cases cs with
  | nil => rfl
  | cons c cs =>
    by_cases hc : Text.isDigit c = true <;>
      simp [digitsPattern, Match.push, hc]

theorem lexeme?_fractionPattern_cons (c : Char) (cs : List Char) :
    fractionPattern.lexeme? (c :: cs) =
      if c = '.' then
        if cs.takeWhile Text.isDigit = [] then none
        else some ('.' :: cs.takeWhile Text.isDigit)
      else none := by
  by_cases hc : c = '.'
  · by_cases hdigits : cs.takeWhile Text.isDigit = [] <;>
      simp [fractionPattern, Pattern.lexeme?, first?_digitsPattern, Match.push, hc, hdigits]
  · simp [fractionPattern, Pattern.lexeme?, hc]

theorem lexeme?_unsignedPattern (cs : List Char) :
    unsignedPattern.lexeme? cs = scanDigits? cs := by
  unfold scanDigits?
  cases hwhole : cs.takeWhile Text.isDigit with
  | nil =>
    have hnone : digitsPattern.first? cs = none := by simp [first?_digitsPattern, hwhole]
    simp [unsignedPattern, Pattern.lexeme?, Pattern.first?_sequence_of_none hnone]
  | cons digit digits =>
    have hdigits : digitsPattern.first? cs =
        some ⟨digit :: digits, cs.dropWhile Text.isDigit, none⟩ := by
      simp [first?_digitsPattern, hwhole]
    have hfraction := Pattern.first?_optional fractionPattern (cs.dropWhile Text.isDigit)
    have hread : unsignedPattern.lexeme? cs = some (digit :: digits ++
        (fractionPattern.lexeme? (cs.dropWhile Text.isDigit)).getD []) := by
      rw [Pattern.lexeme?, unsignedPattern, Pattern.first?_sequence_of_some hdigits hfraction,
        Pattern.lexeme?]
      cases fractionPattern.first? (cs.dropWhile Text.isDigit) <;> simp [Match.join, Match.empty]
    rw [hread]
    cases hrest : cs.dropWhile Text.isDigit with
    | nil => simp [show fractionPattern.lexeme? [] = none from rfl]
    | cons c rest =>
      rw [lexeme?_fractionPattern_cons]
      by_cases hc : c = '.'
      · subst hc
        cases hdecimals : rest.takeWhile Text.isDigit <;> simp [hdecimals]
      · simp [hc]

theorem lexeme?_unsignedPattern_of_not_digit {c : Char} (h : Text.isDigit c = false)
    (cs : List Char) : unsignedPattern.lexeme? (c :: cs) = none := by
  simp [lexeme?_unsignedPattern, scanDigits?, h]

theorem scanNumber?_of_ne {c : Char} (hc : c ≠ '-') (cs : List Char) :
    scanNumber? (c :: cs) = scanDigits? (c :: cs) := by
  rw [scanNumber?]
  simp [hc]

/-- Behind a minus that no digit follows, digits are looked for at the minus in vain. -/
theorem lexeme?_numberPattern (c : Char) (cs : List Char) :
    numberPattern.lexeme? (c :: cs) = scanNumber? (c :: cs) := by
  rw [Pattern.lexeme?, numberPattern, Pattern.first?_optional_sequence,
    Pattern.first?_one_sequence]
  by_cases hc : c = '-'
  · subst hc
    have hminus : unsignedPattern.lexeme? ('-' :: cs) = none :=
      lexeme?_unsignedPattern_of_not_digit (by decide) cs
    rw [Pattern.lexeme?, Option.map_eq_none_iff] at hminus
    rw [scanNumber?, ← lexeme?_unsignedPattern]
    simp [hminus, Pattern.lexeme?, Function.comp_def, Match.push]
  · rw [scanNumber?_of_ne hc, ← lexeme?_unsignedPattern]
    simp [hc, Pattern.lexeme?]

theorem lexeme?_namePattern (c : Char) (cs : List Char) :
    namePattern.lexeme? (c :: cs) =
      if startsName c then some (c :: cs.takeWhile continuesName) else none := by
  by_cases hc : startsName c = true <;>
    simp [namePattern, Pattern.lexeme?, Match.push, hc]

theorem lexeme?_symbolPattern (cs : List Char) :
    symbolPattern.lexeme? cs = scanSymbol? cs := by
  unfold scanSymbol?
  split
  · rfl
  · rename_i c cs hbrackets
    have hnone : (Pattern.sequence (.one (· = '[')) (.one (· = ']')) : Pattern TokenKind).first?
        (c :: cs) = none := by
      rw [Pattern.first?_one_sequence]
      by_cases hc : c = '['
      · cases cs with
        | nil => simp [hc]
        | cons d cs =>
          have hd : d ≠ ']' := fun hd => hbrackets cs hc (by rw [hd])
          simp [hc, hd]
      · simp [hc]
    rw [symbolPattern, Pattern.lexeme?, Pattern.first?_either, hnone, Option.none_or,
      Pattern.first?_one_cons]
    split <;> rfl
  · rfl

/-! ### Tokens -/

theorem exists_scanNumber?_of_isDigit {c : Char} (hc : Text.isDigit c = true) (cs : List Char) :
    ∃ lexeme, scanNumber? (c :: cs) = some lexeme := by
  rw [scanNumber?_of_ne (ne_minus_of_isDigit hc), scanDigits?, List.takeWhile_cons, if_pos hc]
  split
  · cases ‹_ = []›
  · split
    · split <;> exact ⟨_, rfl⟩
    · exact ⟨_, rfl⟩

theorem scanNumber?_of_not_digit {c : Char} (hminus : c ≠ '-') (hc : Text.isDigit c = false)
    (cs : List Char) : scanNumber? (c :: cs) = none := by
  simp [scanNumber?_of_ne hminus, scanDigits?, hc]

theorem lexeme?_quoted (c : Char) (cs : List Char) :
    (Pattern.either (quotedBy '\x27') (quotedBy '\x22')).lexeme? (c :: cs) =
      if c = '\x27' || c = '\x22' then scanQuoted? c cs else none := by
  rw [Pattern.lexeme?_either]
  by_cases hsingle : c = '\x27'
  · subst hsingle
    rw [lexeme?_quotedBy, lexeme?_quotedBy_of_ne (by decide), Option.or_none]
    rfl
  · by_cases hdouble : c = '\x22'
    · subst hdouble
      rw [lexeme?_quotedBy, lexeme?_quotedBy_of_ne (by decide), Option.none_or]
      rfl
    · simp [lexeme?_quotedBy_of_ne, hsingle, hdouble]

/--
The pattern tries the kinds one after another, the scanner looks at the first character only; no
character begins lexemes of two kinds.
-/
theorem first?_lexemePattern (cs : List Char) :
    lexemePattern.first? cs =
      (scanToken? cs).map fun t =>
        ⟨t.lexeme, cs.drop t.lexeme.length, some (t.kind, t.lexeme)⟩ := by
  cases cs with
  | nil => rfl
  | cons c cs =>
    simp only [lexemePattern, Pattern.first?_either, Pattern.first?_group, lexeme?_quoted,
      lexeme?_numberPattern, lexeme?_namePattern, lexeme?_symbolPattern, scanToken?]
    by_cases hquote : (c = '\x27' || c = '\x22') = true
    · have hothers : scanNumber? (c :: cs) = none ∧ startsName c = false ∧
          scanSymbol? (c :: cs) = none := by
        simp only [Bool.or_eq_true, decide_eq_true_eq] at hquote
        obtain rfl | rfl := hquote <;> exact ⟨rfl, rfl, rfl⟩
      simp [hquote, hothers, Function.comp_def]
    · by_cases hnumber : (c = '-' || Text.isDigit c) = true
      · have hothers : (∃ lexeme, scanNumber? (c :: cs) = some lexeme) ∨
            startsName c = false ∧ scanSymbol? (c :: cs) = none := by
          simp only [Bool.or_eq_true, decide_eq_true_eq] at hnumber
          obtain rfl | hdigit := hnumber
          · exact .inr ⟨rfl, rfl⟩
          · exact .inl (exists_scanNumber?_of_isDigit hdigit cs)
        obtain ⟨lexeme, hlexeme⟩ | ⟨hname, hsymbol⟩ := hothers
        · simp [hquote, hnumber, hlexeme]
        · simp [hquote, hnumber, hname, hsymbol, Function.comp_def]
      · have hnone : scanNumber? (c :: cs) = none := by
          simp only [Bool.or_eq_true, decide_eq_true_eq, not_or, Bool.not_eq_true] at hnumber
          exact scanNumber?_of_not_digit hnumber.1 hnumber.2 cs
        by_cases hname : startsName c = true
        · simp [hquote, hnumber, hnone, hname]
        · simp [hquote, hnumber, hnone, hname, Function.comp_def]

/-! ### Blanks -/

theorem not_digit_of_isBlank {c : Char} (hc : Text.isBlank c = true) : Text.isDigit c = false := by
  have hapart : ∀ range ∈ Text.blankRanges, ∀ start ∈ Text.zeroDigits,
      range.2 < start ∨ start + 10 ≤ range.1 := by decide +kernel
  obtain ⟨range, hrange, hin⟩ := List.any_eq_true.1 hc
  have hfind : Text.zeroDigits.find? (fun first => first ≤ c.toNat && c.toNat < first + 10) =
      none := by
    apply List.find?_eq_none.2
    intro start hstart hdigit
    simp only [Bool.and_eq_true, decide_eq_true_eq] at hin hdigit
    have h := hapart range hrange start hstart
    omega
  simp [Text.isDigit, Text.digitValue?, hfind]

theorem startsName_bounds {c : Char} (hc : startsName c = true) :
    0x41 ≤ c.toNat ∧ c.toNat ≤ 0x7a := by
  rcases Bool.or_eq_true_iff.1 hc with hletter | hline
  · rcases Bool.or_eq_true_iff.1 hletter with hupper | hlower
    · have hrange : 0x41 ≤ c.toNat ∧ c.toNat ≤ 0x5a := of_decide_eq_true hupper
      omega
    · have hge : 0x61 ≤ c.toNat := of_decide_eq_true (Bool.and_eq_true_iff.1 hlower).1
      have hle : c.toNat ≤ 0x7a := of_decide_eq_true (Bool.and_eq_true_iff.1 hlower).2
      omega
  · obtain rfl : c = '_' := of_decide_eq_true hline
    decide

theorem not_startsName_of_isBlank {c : Char} (hc : Text.isBlank c = true) :
    startsName c = false := by
  have hapart : ∀ range ∈ Text.blankRanges, range.2 < 0x41 ∨ 0x7a < range.1 := by decide
  obtain ⟨range, hrange, hin⟩ := List.any_eq_true.1 hc
  apply Bool.eq_false_iff.2
  intro hname
  simp only [Bool.and_eq_true, decide_eq_true_eq] at hin
  have hbounds := startsName_bounds hname
  have h := hapart range hrange
  omega

/-- No lexeme begins with a blank. -/
theorem scanToken?_of_isBlank {c : Char} (hc : Text.isBlank c = true) (cs : List Char) :
    scanToken? (c :: cs) = none := by
  have hmarks : (['\x27', '\x22', '-', '[', '|', '<', '>', '(', ')'].any Text.isBlank) = false := by
    decide
  have hne : c ∉ ['\x27', '\x22', '-', '[', '|', '<', '>', '(', ')'] := by
    intro hmem
    exact List.any_eq_false.1 hmarks c hmem hc
  simp only [List.mem_cons, List.not_mem_nil, or_false, not_or] at hne
  simp [scanToken?, scanSymbol?, not_digit_of_isBlank hc, not_startsName_of_isBlank hc, hne]

/-- A token is the longest row of blanks with the lexeme behind it. -/
theorem first?_tokenPattern (cs : List Char) :
    tokenPattern.first? cs =
      (scanToken? (Text.dropBlanks cs)).map fun t =>
        ⟨cs.takeWhile Text.isBlank ++ t.lexeme, (Text.dropBlanks cs).drop t.lexeme.length,
          some (t.kind, t.lexeme)⟩ := by
  have hblank : ∀ (c : Char) (rest : List Char), Text.isBlank c = true →
      lexemePattern.first? (c :: rest) = none := by
    intro c rest hc
    rw [first?_lexemePattern, scanToken?_of_isBlank hc]
    rfl
  rw [tokenPattern, Pattern.first?_run_sequence hblank, first?_lexemePattern, Option.map_map]
  rfl

end SchemaAtlas.FieldType
