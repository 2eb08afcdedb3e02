import SchemaAtlas.FieldType.Printer
import SchemaAtlas.Proofs.Decimal.Text
import SchemaAtlas.Proofs.FieldType.Equality
import SchemaAtlas.Proofs.FieldType.Grammar
import SchemaAtlas.Proofs.FieldType.Lexing

/-!
# Types that are rendered as one word

Names and numbers are rendered as a word, a run of characters that ends where the text goes on with
anything else. A number begins as no name does, so types that are rendered as the same word are the
same; of the numbers this is said of those whose doubles are in range and rounded, which is what a
lexeme writes.
-/
namespace SchemaAtlas

namespace Text

/-- Characters of names and numbers. -/
def inWord (c : Char) : Bool := c.isAlphanum || c = '.' || c = '+' || c = '-'

/-- Characters with which the text of a number begins, but no name. -/
def startsNumber (c : Char) : Bool := c.isDigit || c = '-' || c = 'i'

theorem inWord_of_isDigit {c : Char} (hc : c.isDigit = true) : inWord c = true := by
  rw [inWord, Char.isAlphanum, hc, Bool.or_true]
  rfl

theorem startsNumber_of_isDigit {c : Char} (hc : c.isDigit = true) : startsNumber c = true := by
  rw [startsNumber, hc]
  rfl

/-- A word that begins like a number. -/
structure Numeric (cs : List Char) : Prop where
  starts : ∃ c rest, cs = c :: rest ∧ startsNumber c = true
  word : ∀ c ∈ cs, inWord c = true

namespace Numeric

variable {cs : List Char}

theorem minus (h : Numeric cs) : Numeric ('-' :: cs) :=
  ⟨⟨'-', cs, rfl, rfl⟩, List.forall_mem_cons.2 ⟨rfl, h.word⟩⟩

theorem digits (k : Nat) : Numeric (Nat.toDigits 10 k) := by
  have hdigits := isDigits_toDigits k
  obtain ⟨c, rest, h⟩ := List.exists_cons_of_ne_nil (toDigits_ne_nil k)
  refine ⟨⟨c, rest, h, startsNumber_of_isDigit (hdigits c ?_)⟩, fun d hd => ?_⟩
  · rw [h]
    exact List.mem_cons_self
  · exact inWord_of_isDigit (hdigits d hd)

theorem of_spells {x : ℚ} (h : Double.Spells cs x) : Numeric cs := by
  obtain ⟨c, rest, heq, hc⟩ := h.exists_cons
  refine ⟨⟨c, rest, heq, startsNumber_of_isDigit hc⟩, fun d hd => ?_⟩
  rcases h.mem_cases hd with hdigit | hmark
  · exact inWord_of_isDigit hdigit
  · simp only [List.mem_cons, List.not_mem_nil, or_false] at hmark
    rcases hmark with rfl | rfl | rfl | rfl <;> decide

end Numeric
end Text

namespace Number

open Text

/-- A number that a text can write: an integer or a rounded double. -/
def Rounded : Number → Prop
  | integer _ => True
  | double d => d.Rounded

theorem rounded_numberOf (lexeme : List Char) : (FieldType.numberOf lexeme).Rounded := by
  unfold FieldType.numberOf
  dsimp only
  split_ifs
  · exact Double.rounded_ofDecimal _ _ _
  · trivial
  · exact Double.rounded_ofDecimal _ _ _
  · trivial

variable {n m : Number}

theorem Rounded.numeric_text (h : n.Rounded) : Numeric n.text.toList := by
  cases n with
  | integer i =>
    rcases Text.toList_toString_int i with ⟨-, hi⟩ | ⟨-, hi⟩
    · rw [text, hi]
      exact .digits _
    · rw [text, hi]
      exact (Numeric.digits _).minus
  | double d =>
    obtain ⟨negative, rfl⟩ | ⟨negative, cs, x, hspells, hd, -⟩ := Double.exists_spells_text h
    · have hinfinite : Numeric ['i', 'n', 'f'] := ⟨⟨'i', _, rfl, rfl⟩, List.all_eq_true.1 rfl⟩
      cases negative with
      | true => exact hinfinite.minus
      | false => exact hinfinite
    · rw [text, hd]
      split
      · exact (Numeric.of_spells hspells).minus
      · exact .of_spells hspells

/-- The text of a double has a point or a letter, that of an integer has neither. -/
theorem text_integer_ne_double (i : Int) {d : Double} (h : d.Rounded) :
    (integer i).text ≠ (double d).text := by
  have hinteger : ∀ c ∈ (integer i).text.toList, c.isDigit = true ∨ c = '-' := by
    intro c hc
    rcases Text.toList_toString_int i with ⟨-, hi⟩ | ⟨-, hi⟩
    · rw [text, hi] at hc
      exact .inl (Text.isDigits_toDigits _ c hc)
    · rw [text, hi] at hc
      rcases List.mem_cons.1 hc with rfl | hc
      · exact .inr rfl
      · exact .inl (Text.isDigits_toDigits _ c hc)
  have hdouble : ∃ c ∈ (double d).text.toList, c ∈ ['.', 'e', 'i'] := by
    obtain ⟨negative, rfl⟩ | ⟨negative, cs, x, hspells, hd, -⟩ := Double.exists_spells_text h
    · cases negative <;> exact ⟨'i', by decide, by decide⟩
    · have hcs : ∀ c ∈ cs, c ∈ (double d).text.toList := by
        intro c hc
        rw [text, hd]
        split
        · exact List.mem_cons_of_mem _ hc
        · exact hc
      rcases hspells.exists_mark with hpoint | hexponent
      · exact ⟨'.', hcs _ hpoint, by decide⟩
      · exact ⟨'e', hcs _ hexponent, by decide⟩
  intro heq
  obtain ⟨c, hc, hmark⟩ := hdouble
  rw [← heq] at hc
  simp only [List.mem_cons, List.not_mem_nil, or_false] at hmark
  rcases hinteger c hc with hdigit | rfl
  · rcases hmark with rfl | rfl | rfl <;> cases hdigit
  · revert hmark
    decide

/-- Numbers with the same text are the same. -/
theorem same_of_text_eq (hn : n.Rounded) (hm : m.Rounded) (h : n.text = m.text) :
    n.same m = true := by
  cases n with
  | integer i =>
    cases m with
    | integer j =>
      have hnumber := congrArg (fun s : String => FieldType.numberOf s.toList) h
      simp only [text, FieldType.numberOf_toString_int] at hnumber
      rw [hnumber]
      exact same_iff.2 rfl
    | double d => exact absurd h (text_integer_ne_double i hm)
  | double d =>
    cases m with
    | integer j => exact absurd h.symm (text_integer_ne_double j hn)
    | double d' => exact same_iff.2 (Double.quantity_of_text_eq hn hm h)

end Number

namespace FieldType

open Grammar (Word)

/-- Types that are rendered as a word: those with a name, and rounded numbers. -/
inductive IsWord : FieldType → Prop
  | name (w : Word) : IsWord w.type
  | never : IsWord never
  | number {n : Number} (h : n.Rounded) : IsWord (.literal (.number n))

theorem render_type (w : Word) : w.type.render = w.spelling := by
  cases w <;> rfl

/-- No name begins like a number. -/
theorem exists_cons_of_spelling (w : Word) :
    ∃ c rest, w.spelling.toList = c :: rest ∧ Text.startsNumber c = false := by
  cases w with
  | truth value => cases value <;> exact ⟨_, _, rfl, by decide⟩
  | anything => exact ⟨_, _, rfl, by decide⟩
  | openMap => exact ⟨_, _, rfl, by decide⟩
  | primitive kind => cases kind <;> exact ⟨_, _, rfl, by decide⟩

theorem render_ne_number {n : Number} (hn : n.Rounded) {text : String} {c : Char}
    {rest : List Char} (htext : text.toList = c :: rest) (hc : Text.startsNumber c = false) :
    text ≠ n.text := by
  rintro rfl
  obtain ⟨d, others, hd, hstarts⟩ := hn.numeric_text.starts
  obtain ⟨rfl, -⟩ := List.cons.inj (htext.symm.trans hd)
  rw [hc] at hstarts
  cases hstarts

namespace IsWord

variable {t u : FieldType}

theorem inWord_of_mem (ht : IsWord t) : ∀ c ∈ t.render.toList, Text.inWord c = true := by
  cases ht with
  | name w =>
    rw [render_type]
    cases w with
    | truth value => cases value <;> exact List.all_eq_true.1 rfl
    | anything => exact List.all_eq_true.1 rfl
    | openMap => exact List.all_eq_true.1 rfl
    | primitive kind => cases kind <;> exact List.all_eq_true.1 rfl
  | never => exact List.all_eq_true.1 rfl
  | number h => exact h.numeric_text.word

theorem name_ne_never (w : Word) : w.spelling ≠ "never" := by
  intro h
  have hnamed := w.named?_spelling
  rw [h] at hnamed
  cases hnamed

/-- Words are decoded: what is rendered as the same word is the same type. -/
theorem same_of_render_eq (ht : IsWord t) (hu : IsWord u) (h : t.render = u.render) :
    same t u = true := by
  have hnever : Text.startsNumber 'n' = false := by decide
  cases ht with
  | name w =>
    rw [render_type] at h
    obtain ⟨c, rest, htext, hc⟩ := exists_cons_of_spelling w
    cases hu with
    | name w' =>
      rw [render_type] at h
      rw [Word.spelling_injective h]
      exact same_refl _
    | never => exact absurd h (name_ne_never w)
    | number hn => exact absurd h (render_ne_number hn htext hc)
  | never =>
    cases hu with
    | name w' => exact absurd (h.trans (render_type w')).symm (name_ne_never w')
    | never => exact same_refl _
    | number hn => exact absurd h (render_ne_number hn rfl hnever)
  | number hn =>
    cases hu with
    | name w' =>
      obtain ⟨c, rest, htext, hc⟩ := exists_cons_of_spelling w'
      exact absurd (h.trans (render_type w')).symm (render_ne_number hn htext hc)
    | never => exact absurd h.symm (render_ne_number hn rfl hnever)
    | number hm => exact same_literal_iff.2 ⟨_, rfl, Number.same_of_text_eq hn hm h⟩

end IsWord
end FieldType
end SchemaAtlas
