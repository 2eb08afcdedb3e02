import SchemaAtlas.Text.Blank
import SchemaAtlas.Text.Quoted

/-!
# Tokens of type expressions

A type expression is a row of lexemes with blanks around them: quoted texts, numbers, names and
symbols. Each token keeps its lexeme. Where no lexeme starts, the lexer reports the end of the last
one.
-/
namespace SchemaAtlas.FieldType

inductive TokenKind
  | quoted | number | name | symbol
  deriving DecidableEq

/-- A lexeme and its kind. -/
structure Token where
  kind : TokenKind
  lexeme : List Char
  deriving DecidableEq

namespace Token

def text (t : Token) : String := String.ofList t.lexeme

def symbolOf (lexeme : String) : Token := ⟨.symbol, lexeme.toList⟩

end Token

def startsName (c : Char) : Bool := c.isAlpha || c = '_'

def continuesName (c : Char) : Bool := c.isAlphanum || c = '_'

/-- A text up to the next quote of the kind that opened it; there are no escapes. -/
def scanQuoted? (quote : Char) (cs : List Char) : Option (List Char) :=
  match cs.dropWhile (· != quote) with
  | [] => none
  | _ :: _ => some (quote :: cs.takeWhile (· != quote) ++ [quote])

/-- Digits with an optional fraction. A point counts only with a digit behind it. -/
def scanDigits? (cs : List Char) : Option (List Char) :=
  match cs.takeWhile Text.isDigit with
  | [] => none
  | whole =>
    match cs.dropWhile Text.isDigit with
    | '.' :: rest =>
      match rest.takeWhile Text.isDigit with
      | [] => some whole
      | fraction => some (whole ++ '.' :: fraction)
    | _ => some whole

def scanNumber? : List Char → Option (List Char)
  | '-' :: cs => (scanDigits? cs).map ('-' :: ·)
  | cs => scanDigits? cs

def scanSymbol? : List Char → Option (List Char)
  | '[' :: ']' :: _ => some ['[', ']']
  | c :: _ => if ['|', '<', '>', '(', ')'].contains c then some [c] else none
  | [] => none

/-- The token at the very start of the characters. -/
def scanToken? : List Char → Option Token
  | [] => none
  | c :: cs =>
    if c = '\x27' || c = '\x22' then (scanQuoted? c cs).map (⟨.quoted, ·⟩)
    else if c = '-' || Text.isDigit c then (scanNumber? (c :: cs)).map (⟨.number, ·⟩)
    else if startsName c then some ⟨.name, c :: cs.takeWhile continuesName⟩
    else (scanSymbol? (c :: cs)).map (⟨.symbol, ·⟩)

theorem scanDigits?_ne_nil {cs lexeme : List Char} (h : scanDigits? cs = some lexeme) :
    lexeme ≠ [] := by
  unfold scanDigits? at h
  split at h
  · cases h
  · split at h
    · split at h <;> (cases h; simp_all)
    · cases h; simp_all

theorem scanQuoted?_ne_nil {quote : Char} {cs lexeme : List Char}
    (h : scanQuoted? quote cs = some lexeme) : lexeme ≠ [] := by
  unfold scanQuoted? at h
  split at h <;> cases h
  simp

theorem scanNumber?_ne_nil {cs lexeme : List Char} (h : scanNumber? cs = some lexeme) :
    lexeme ≠ [] := by
  unfold scanNumber? at h
  split at h
  · obtain ⟨_, _, rfl⟩ := Option.map_eq_some_iff.1 h
    simp
  · exact scanDigits?_ne_nil h

theorem scanSymbol?_ne_nil {cs lexeme : List Char} (h : scanSymbol? cs = some lexeme) :
    lexeme ≠ [] := by
  unfold scanSymbol? at h
  split at h
  · cases h; simp
  · split at h <;> cases h
    simp
  · cases h

theorem scanToken?_lexeme_ne_nil {cs : List Char} {t : Token} (h : scanToken? cs = some t) :
    t.lexeme ≠ [] := by
  cases cs with
  | nil => cases h
  | cons c cs =>
    simp only [scanToken?] at h
    split at h
    · obtain ⟨l, hl, rfl⟩ := Option.map_eq_some_iff.1 h
      exact scanQuoted?_ne_nil hl
    · split at h
      · obtain ⟨l, hl, rfl⟩ := Option.map_eq_some_iff.1 h
        exact scanNumber?_ne_nil hl
      · split at h
        · cases h; simp
        · obtain ⟨l, hl, rfl⟩ := Option.map_eq_some_iff.1 h
          exact scanSymbol?_ne_nil hl

theorem length_dropBlanks_le (cs : List Char) : (Text.dropBlanks cs).length ≤ cs.length :=
  (List.dropWhile_sublist _).length_le

/--
The tokens of the characters. `offset` is the number of characters in front of them; where a rest
that is not blank starts with no token, the result is that number.
-/
def tokensFrom (offset : Nat) (cs : List Char) : Except Nat (List Token) :=
  match _ : Text.dropBlanks cs with
  | [] => .ok []
  | c :: rest =>
    match _ : scanToken? (c :: rest) with
    | none => .error offset
    | some token =>
      let skipped := cs.length - (c :: rest).length
      (tokensFrom (offset + skipped + token.lexeme.length)
        ((c :: rest).drop token.lexeme.length)).map (token :: ·)
termination_by cs.length
decreasing_by
  rename_i hb ht
  have h1 := length_dropBlanks_le cs
  have h2 := List.length_pos_iff.2 (scanToken?_lexeme_ne_nil ht)
  rw [hb] at h1
  simp only [List.length_drop, List.length_cons] at *
  omega

/-- The tokens of a whole text, or the offset at which it holds no token. -/
def tokens (text : String) : Except Nat (List Token) := tokensFrom 0 text.toList

end SchemaAtlas.FieldType
