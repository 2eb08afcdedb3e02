import SchemaAtlas.FieldType.Expression
import SchemaAtlas.Proofs.Text.Digits

/-!
# The tokens of joined texts

How the tokens of a text come from a token at its start and the tokens of the rest. A token ends where
the rest could not continue it; behind the texts that are joined here stands nothing but a blank, a
closing angle or the end.
-/
namespace SchemaAtlas.FieldType

open Text (takeWhile_append_of_head dropWhile_append_of_head isDigit_of_mem_toDigits
  isBlank_of_mem_toDigits digitsValue_toDigits toDigits_ne_nil toList_toString_int)

/-- The characters split into the tokens, wherever in a text they stand. -/
def SplitsInto (cs : List Char) (row : List Token) : Prop :=
  ∀ offset, tokensFrom offset cs = .ok row

theorem tokensFrom_of_dropBlanks_eq_nil {cs : List Char} (h : Text.dropBlanks cs = [])
    (offset : Nat) : tokensFrom offset cs = .ok [] := by
  rw [tokensFrom]
  split
  · rfl
  · rename_i hcons
    rw [h] at hcons
    cases hcons

theorem tokensFrom_of_dropBlanks_eq_cons {cs rest : List Char} {c : Char}
    (h : Text.dropBlanks cs = c :: rest) (offset : Nat) :
    tokensFrom offset cs =
      match scanToken? (c :: rest) with
      | none => .error offset
      | some token =>
        (tokensFrom (offset + (cs.length - (c :: rest).length) + token.lexeme.length)
          ((c :: rest).drop token.lexeme.length)).map (token :: ·) := by
  rw [tokensFrom]
  split
  · rename_i hnil
    rw [h] at hnil
    cases hnil
  · rename_i first others hcons
    obtain ⟨rfl, rfl⟩ := List.cons.inj (h.symm.trans hcons)
    split
    · rename_i hscan
      rw [hscan]
    · rename_i token hscan
      rw [hscan]

namespace SplitsInto

variable {rest : List Char} {row : List Token}

theorem nil : SplitsInto [] [] := tokensFrom_of_dropBlanks_eq_nil rfl

theorem token {c : Char} {cs : List Char} {kind : TokenKind} (hc : Text.isBlank c = false)
    (hscan : scanToken? (c :: (cs ++ rest)) = some ⟨kind, c :: cs⟩) (hrest : SplitsInto rest row) :
    SplitsInto (c :: (cs ++ rest)) (⟨kind, c :: cs⟩ :: row) := by
  intro offset
  have hstart : Text.dropBlanks (c :: (cs ++ rest)) = c :: (cs ++ rest) := by
    rw [Text.dropBlanks, List.dropWhile_cons, hc]
    rfl
  have hdrop : (c :: (cs ++ rest)).drop (c :: cs).length = rest := by
    rw [← List.cons_append, List.drop_left]
  rw [tokensFrom_of_dropBlanks_eq_cons hstart, hscan]
  dsimp only
  rw [hdrop, hrest]
  rfl

theorem blank {c : Char} (hc : Text.isBlank c = true) (hrest : SplitsInto rest row) :
    SplitsInto (c :: rest) row := by
  intro offset
  have hskip : Text.dropBlanks (c :: rest) = Text.dropBlanks rest := by
    rw [Text.dropBlanks, List.dropWhile_cons, hc]
    rfl
  cases hstart : Text.dropBlanks rest with
  | nil =>
    have hrow := hrest offset
    rw [tokensFrom_of_dropBlanks_eq_nil hstart] at hrow
    rw [tokensFrom_of_dropBlanks_eq_nil (hskip.trans hstart), hrow]
  | cons d ds =>
    have hrow := hrest (offset + 1)
    rw [tokensFrom_of_dropBlanks_eq_cons hstart] at hrow
    rw [tokensFrom_of_dropBlanks_eq_cons (hskip.trans hstart)]
    cases hscan : scanToken? (d :: ds) with
    | none =>
      rw [hscan] at hrow
      cases hrow
    | some found =>
      rw [hscan] at hrow
      have hle := length_dropBlanks_le rest
      have hoffset : offset + ((c :: rest).length - (d :: ds).length) =
          offset + 1 + (rest.length - (d :: ds).length) := by
        rw [hstart] at hle
        rw [List.length_cons]
        omega
      dsimp only at hrow ⊢
      rw [hoffset, hrow]

end SplitsInto

/-- What may stand behind a text without continuing its last token. -/
def Closes (rest : List Char) : Prop := ∀ c ∈ rest.head?, c = ' ' ∨ c = '>'

theorem closes_nil : Closes [] := nofun

theorem closes_blank (rest : List Char) : Closes (' ' :: rest) :=
  fun _ hc => .inl (Option.some.inj hc).symm

theorem closes_angle (rest : List Char) : Closes ('>' :: rest) :=
  fun _ hc => .inr (Option.some.inj hc).symm

/-! ### The tokens at the start -/

theorem Closes.eq_false {rest : List Char} (h : Closes rest) {p : Char → Bool}
    (hblank : p ' ' = false) (hangle : p '>' = false) : ∀ c ∈ rest.head?, p c = false := by
  intro c hc
  rcases h c hc with rfl | rfl
  · exact hblank
  · exact hangle

theorem scanToken?_quoted {cs : List Char} (hcs : '\x27' ∉ cs) (rest : List Char) :
    scanToken? ('\x27' :: (cs ++ ['\x27'] ++ rest)) =
      some ⟨.quoted, '\x27' :: (cs ++ ['\x27'])⟩ := by
  have hinside : ∀ c ∈ cs, (c != '\x27') = true := by
    intro c hc
    rw [bne_iff_ne]
    rintro rfl
    exact hcs hc
  have hquote : ∀ c ∈ ('\x27' :: rest).head?, (c != '\x27') = false := by
    intro c hc
    obtain rfl := Option.some.inj hc
    rfl
  have hscan : scanQuoted? '\x27' (cs ++ ['\x27'] ++ rest) =
      some ('\x27' :: (cs ++ ['\x27'])) := by
    rw [scanQuoted?, List.append_assoc, List.singleton_append,
      dropWhile_append_of_head hinside hquote, takeWhile_append_of_head hinside hquote]
    rfl
  rw [scanToken?, if_pos (by decide), hscan]
  rfl

theorem scanToken?_name {c : Char} {cs rest : List Char} (hc : startsName c = true)
    (hdigit : Text.isDigit c = false) (hcs : ∀ d ∈ cs, continuesName d = true)
    (hrest : ∀ d ∈ rest.head?, continuesName d = false) :
    scanToken? (c :: (cs ++ rest)) = some ⟨.name, c :: cs⟩ := by
  have hquotes : ¬ (c = '\x27' || c = '\x22') = true := by
    rw [Bool.or_eq_true, decide_eq_true_eq, decide_eq_true_eq]
    rintro (rfl | rfl) <;> exact absurd hc (by decide)
  have hnumber : ¬ (c = '-' || Text.isDigit c) = true := by
    rw [hdigit, Bool.or_false, decide_eq_true_eq]
    rintro rfl
    exact absurd hc (by decide)
  rw [scanToken?, if_neg hquotes, if_neg hnumber, if_pos hc, takeWhile_append_of_head hcs hrest]

theorem scanToken?_symbol {c : Char} (hc : c ∈ ['|', '<', '>']) (rest : List Char) :
    scanToken? (c :: rest) = some ⟨.symbol, [c]⟩ := by
  simp only [List.mem_cons, List.not_mem_nil, or_false] at hc
  rcases hc with rfl | rfl | rfl <;> rfl

theorem SplitsInto.symbol {c : Char} {rest : List Char} {row : List Token}
    (hc : c ∈ ['|', '<', '>']) (hrest : SplitsInto rest row) :
    SplitsInto (c :: rest) (⟨.symbol, [c]⟩ :: row) := by
  have hblank : Text.isBlank c = false := by
    simp only [List.mem_cons, List.not_mem_nil, or_false] at hc
    rcases hc with rfl | rfl | rfl <;> decide
  have hscan : scanToken? (c :: ([] ++ rest)) = some ⟨.symbol, [c]⟩ := scanToken?_symbol hc rest
  exact hrest.token hblank hscan

/-! ### Integers -/

theorem scanDigits?_of_isDigit {cs rest : List Char} (hne : cs ≠ [])
    (hcs : ∀ c ∈ cs, Text.isDigit c = true) (hrest : Closes rest) :
    scanDigits? (cs ++ rest) = some cs := by
  have hend : ∀ c ∈ rest.head?, Text.isDigit c = false := hrest.eq_false (by decide) (by decide)
  rw [scanDigits?, takeWhile_append_of_head hcs hend, dropWhile_append_of_head hcs hend]
  split
  · exact absurd rfl hne
  · split
    · have hpoint := hrest '.' rfl
      exact absurd hpoint (by decide)
    · rfl

theorem ne_minus_of_isDigit {c : Char} (h : Text.isDigit c = true) : c ≠ '-' := by
  rintro rfl
  exact absurd h (by decide)

theorem ne_point_of_isDigit {c : Char} (h : Text.isDigit c = true) : c ≠ '.' := by
  rintro rfl
  exact absurd h (by decide)

theorem exists_cons_of_toString_int (i : Int) :
    ∃ c cs, (toString i).toList = c :: cs ∧ Text.isBlank c = false := by
  rcases toList_toString_int i with ⟨-, h⟩ | ⟨-, h⟩
  · obtain ⟨c, cs, hdigits⟩ := List.exists_cons_of_ne_nil (toDigits_ne_nil i.natAbs)
    have hc : c ∈ Nat.toDigits 10 i.natAbs := hdigits ▸ List.mem_cons_self
    exact ⟨c, cs, h.trans hdigits, isBlank_of_mem_toDigits hc⟩
  · exact ⟨'-', _, h, by decide⟩

theorem scanToken?_integer {i : Int} {c : Char} {cs rest : List Char}
    (hi : (toString i).toList = c :: cs) (hrest : Closes rest) :
    scanToken? (c :: (cs ++ rest)) = some ⟨.number, c :: cs⟩ := by
  have hstart : (c = '-' || Text.isDigit c) = true ∧
      scanNumber? (c :: (cs ++ rest)) = some (c :: cs) := by
    rcases toList_toString_int i with ⟨-, h⟩ | ⟨-, h⟩
    · have hdigits : ∀ d ∈ c :: cs, Text.isDigit d = true := by
        rw [← hi, h]
        exact fun d => isDigit_of_mem_toDigits
      have hc := hdigits c List.mem_cons_self
      refine ⟨by rw [hc, Bool.or_true], ?_⟩
      rw [scanNumber?]
      · exact scanDigits?_of_isDigit (List.cons_ne_nil c cs) hdigits hrest
      · exact fun _ heq => ne_minus_of_isDigit hc (List.head_eq_of_cons_eq heq)
    · obtain ⟨rfl, rfl⟩ := List.cons.inj (hi.symm.trans h)
      refine ⟨rfl, ?_⟩
      rw [scanNumber?, scanDigits?_of_isDigit (toDigits_ne_nil _)
        (fun d => isDigit_of_mem_toDigits) hrest]
      rfl
  have hquotes : ¬ (c = '\x27' || c = '\x22') = true := by
    rw [Bool.or_eq_true, decide_eq_true_eq, decide_eq_true_eq]
    rintro (rfl | rfl) <;> exact absurd hstart.1 (by decide)
  rw [scanToken?, if_neg hquotes, if_pos hstart.1, hstart.2]
  rfl

/-- The number that an integer's lexeme writes is the integer. -/
theorem numberOf_toString_int (i : Int) : numberOf (toString i).toList = .integer i := by
  have hpoint : (Nat.toDigits 10 i.natAbs).contains '.' = false := by
    rw [← Bool.not_eq_true, List.contains_iff_mem]
    exact fun h => ne_point_of_isDigit (isDigit_of_mem_toDigits h) rfl
  rcases toList_toString_int i with ⟨hi, h⟩ | ⟨hi, h⟩
  · have hhead : ¬ (Nat.toDigits 10 i.natAbs).head? = some '-' := fun hc =>
      ne_minus_of_isDigit (isDigit_of_mem_toDigits (List.mem_of_head? hc)) rfl
    rw [h, numberOf]
    simp only [hhead, decide_false, Bool.false_eq_true, if_false, hpoint, digitsValue_toDigits]
    rw [Int.natAbs_of_nonneg hi]
  · rw [h, numberOf]
    simp only [List.head?_cons, decide_true, if_true, List.drop_succ_cons, List.drop_zero, hpoint,
      Bool.false_eq_true, if_false, digitsValue_toDigits]
    rw [Int.ofNat_natAbs_of_nonpos (Int.le_of_lt hi), Int.neg_neg]

end SchemaAtlas.FieldType
