import SchemaAtlas.FieldType.Expression
import SchemaAtlas.Proofs.Decimal.Range
import SchemaAtlas.Proofs.Decimal.Text

/-!
# What number lexemes denote

A number lexeme is a row of digits, perhaps with a sign in front and with a point. Each digit counts
by its place. Without a point the lexeme denotes a whole number, with a point the double that is
nearest to the fraction. The reader of type expressions computes just this number.
-/
namespace SchemaAtlas.FieldType

namespace Grammar

/-- What a row of digits is worth: each digit as often as the number of those behind it says. -/
def positional : List Char → Nat
  | [] => 0
  | c :: rest => (Text.digitValue? c).getD 0 * Nat.pow 10 rest.length + positional rest

/-- The number of some digits in front of a point and of what stands from the point on. -/
def signedNumber (negative : Bool) (whole : List Char) : List Char → Number
  | [] => .integer (if negative then -(positional whole : Int) else positional whole)
  | _ :: fraction =>
    let scale := Nat.pow 10 fraction.length
    .double (Double.nearest negative (positional whole * scale + positional fraction) scale)

/-- The number with a sign that the characters behind the sign write. -/
def unsignedNumber (negative : Bool) (cs : List Char) : Number :=
  signedNumber negative (cs.takeWhile (· != '.')) (cs.dropWhile (· != '.'))

def numberValue : List Char → Number
  | '-' :: rest => unsignedNumber true rest
  | cs => unsignedNumber false cs

end Grammar

open Grammar

theorem digitsValue_eq_positional (cs : List Char) : Text.digitsValue cs = positional cs := by
  induction cs with
  | nil => rfl
  | cons c rest ih =>
    have hdigit : Text.digitsValue [c] = (Text.digitValue? c).getD 0 := Nat.zero_add _
    rw [← List.singleton_append, Text.digitsValue_append, ih, hdigit]
    rfl

/-- The number that the reader computes from the characters behind a sign. -/
def readUnsigned (negative : Bool) (cs : List Char) : Number :=
  let whole := cs.takeWhile (· != '.')
  let fraction := (cs.dropWhile (· != '.')).drop 1
  if cs.contains '.' then
    .double (Double.ofDecimal negative (Text.digitsValue (whole ++ fraction))
      (-(fraction.length : Int)))
  else .integer (if negative then -(Text.digitsValue cs : Int) else Text.digitsValue cs)

/-- There is a point among the characters exactly if something stands from a point on. -/
theorem contains_point_iff {cs : List Char} :
    cs.contains '.' = true ↔ cs.dropWhile (· != '.') ≠ [] := by
  rw [List.contains_iff_mem, ne_eq, List.dropWhile_eq_nil_iff]
  simp only [bne_iff_ne, ne_eq, not_forall, not_not]
  exact ⟨fun h => ⟨_, h, rfl⟩, fun ⟨_, h, heq⟩ => heq ▸ h⟩

theorem readUnsigned_eq (negative : Bool) (cs : List Char) :
    readUnsigned negative cs = unsignedNumber negative cs := by
  unfold readUnsigned unsignedNumber
  have hpoint : cs.contains '.' = true ↔ cs.dropWhile (· != '.') ≠ [] := contains_point_iff
  have hparts : cs.takeWhile (· != '.') ++ cs.dropWhile (· != '.') = cs :=
    List.takeWhile_append_dropWhile
  dsimp only
  cases hrest : cs.dropWhile (· != '.') with
  | nil =>
    rw [hrest, List.append_nil] at hparts
    rw [if_neg (fun h => hpoint.1 h hrest), hparts, digitsValue_eq_positional]
    rfl
  | cons point fraction =>
    rw [if_pos (hpoint.2 (hrest ▸ List.cons_ne_nil _ _)), Double.ofDecimal_eq_nearest,
      Text.digitsValue_append, digitsValue_eq_positional, digitsValue_eq_positional]
    rfl

/-- The reader computes the number that the lexeme denotes. -/
theorem numberOf_eq_numberValue (lexeme : List Char) : numberOf lexeme = numberValue lexeme := by
  by_cases hsign : ∃ rest, lexeme = '-' :: rest
  · obtain ⟨rest, rfl⟩ := hsign
    exact readUnsigned_eq true rest
  · have hhead : ¬ lexeme.head? = some '-' := by
      intro h
      obtain ⟨rest, hrest⟩ := List.head?_eq_some_iff.1 h
      exact hsign ⟨rest, hrest⟩
    have hvalue : numberValue lexeme = unsignedNumber false lexeme := by
      unfold numberValue
      split
      · exact absurd ⟨_, rfl⟩ hsign
      · rfl
    rw [hvalue, ← readUnsigned_eq, numberOf]
    simp only [hhead, decide_false, if_false]
    rfl

end SchemaAtlas.FieldType
