import Mathlib.Logic.Function.Iterate
import Mathlib.Tactic.SplitIfs
import SchemaAtlas.Proofs.FieldType.NumberValue

/-!
# The grammar of type expressions

Derivation trees of the grammar, one type for each of its three symbols, with the row of tokens that a
tree writes and the type that it denotes. A row of tokens has at most one tree: a tree is fixed by the
tokens it begins with, as long as what stands behind it could not continue it.
-/
namespace SchemaAtlas.FieldType.Grammar

/-- A name that is a type by itself. -/
inductive Word
  | truth (value : Bool)
  | anything
  | openMap
  | primitive (kind : Primitive)

namespace Word

def spelling : Word → String
  | truth value => if value then "true" else "false"
  | anything => "any"
  | openMap => "map"
  | primitive kind => kind.name

def type : Word → FieldType
  | truth value => literal (.boolean value)
  | anything => .any
  | openMap => .map []
  | primitive kind => .primitive kind

def token (w : Word) : Token := ⟨.name, w.spelling.toList⟩

end Word

mutual

/-- `atom ::= quoted | number | '(' union ')' | word | 'array' '<' union '>'` -/
inductive Atom
  | quoted (lexeme : List Char)
  | number (lexeme : List Char)
  | enclosed (inner : Union)
  | word (word : Word)
  | array (element : Union)

/-- `item ::= atom '[]'*` -/
inductive Item
  | mk (atom : Atom) (brackets : Nat)

/-- `union ::= item ('|' item)*` -/
inductive Union
  | single (item : Item)
  | either (item : Item) (others : Union)

end

/-- The name in front of the element type of an array. -/
def arrayToken : Token := ⟨.name, "array".toList⟩

mutual

def Atom.tokens : Atom → List Token
  | .quoted lexeme => [⟨.quoted, lexeme⟩]
  | .number lexeme => [⟨.number, lexeme⟩]
  | .enclosed inner => Token.symbolOf "(" :: (inner.tokens ++ [Token.symbolOf ")"])
  | .word w => [w.token]
  | .array element =>
    arrayToken :: Token.symbolOf "<" :: (element.tokens ++ [Token.symbolOf ">"])

def Item.tokens : Item → List Token
  | .mk atom brackets => atom.tokens ++ List.replicate brackets (Token.symbolOf "[]")

def Union.tokens : Union → List Token
  | .single item => item.tokens
  | .either item others => item.tokens ++ Token.symbolOf "|" :: others.tokens

end

mutual

def Atom.type : Atom → FieldType
  | .quoted lexeme => text (String.ofList (lexeme.drop 1).dropLast)
  | .number lexeme => literal (.number (numberValue lexeme))
  | .enclosed inner => inner.type
  | .word w => w.type
  | .array element => array element.type

/-- Every `[]` makes an array of what stands before it. -/
def Item.type : Item → FieldType
  | .mk atom brackets => array^[brackets] atom.type

/-- An only alternative is the type itself; several denote their union. -/
def Union.type : Union → FieldType
  | .single item => item.type
  | .either item others => unionOf (item.type :: others.types)

/-- The types of the alternatives. -/
def Union.types : Union → List FieldType
  | .single item => [item.type]
  | .either item others => item.type :: others.types

end

/-- What stands behind a tree does not continue it with more brackets. -/
def EndsItem (rest : List Token) : Prop := rest.head? ≠ some (Token.symbolOf "[]")

/-- What stands behind a tree continues it neither with brackets nor with another alternative. -/
def EndsUnion (rest : List Token) : Prop :=
  EndsItem rest ∧ rest.head? ≠ some (Token.symbolOf "|")

namespace Word

theorem named?_spelling (w : Word) : named? w.spelling = some w.type := by
  cases w with
  | truth value => cases value <;> rfl
  | anything => rfl
  | openMap => rfl
  | primitive kind => cases kind <;> rfl

theorem type_injective {w w' : Word} (h : w.type = w'.type) : w = w' := by
  cases w <;> cases w' <;> simp_all [type]

theorem spelling_injective {w w' : Word} (h : w.spelling = w'.spelling) : w = w' := by
  have htype : some w.type = some w'.type := by
    rw [← named?_spelling, ← named?_spelling, h]
  exact type_injective (Option.some.inj htype)

theorem spelling_ne_array (w : Word) : w.spelling ≠ "array" := by
  intro h
  have hnamed := named?_spelling w
  rw [h] at hnamed
  exact absurd hnamed (by nofun)

/-- The names that stand for a type are the words. -/
theorem exists_of_named? {name : String} {t : FieldType} (h : named? name = some t) :
    ∃ w : Word, w.spelling = name ∧ w.type = t := by
  unfold named? at h
  split_ifs at h with htrue hfalse hany hmap
  · exact ⟨truth true, htrue.symm, Option.some.inj h⟩
  · exact ⟨truth false, hfalse.symm, Option.some.inj h⟩
  · exact ⟨anything, hany.symm, Option.some.inj h⟩
  · exact ⟨openMap, hmap.symm, Option.some.inj h⟩
  · obtain ⟨kind, hkind, rfl⟩ := Option.map_eq_some_iff.1 h
    have hname := List.find?_some hkind
    exact ⟨primitive kind, beq_iff_eq.1 hname, rfl⟩

theorem token_injective {w w' : Word} (h : w.token = w'.token) : w = w' := by
  simp only [token, Token.mk.injEq, true_and, String.toList_inj] at h
  exact spelling_injective h

theorem token_ne_array (w : Word) : w.token ≠ arrayToken := by
  simp only [token, arrayToken, ne_eq, Token.mk.injEq, true_and, String.toList_inj]
  exact spelling_ne_array w

end Word

theorem Item.length_tokens_pos (i : Item) : 0 < i.tokens.length := by
  cases i with
  | mk atom n => cases atom <;> simp [Item.tokens, Atom.tokens]

theorem Union.tokens_ne_nil (u : Union) : u.tokens ≠ [] := by
  cases u with
  | single item => exact List.length_pos_iff.1 item.length_tokens_pos
  | either item others => simp [Union.tokens]

theorem Union.types_ne_nil (u : Union) : u.types ≠ [] := by
  cases u <;> exact List.cons_ne_nil _ _

/-- The reader puts the alternatives together as the tree does. -/
theorem Union.ofAlternatives_types (u : Union) : ofAlternatives u.types = u.type := by
  cases u with
  | single item => rfl
  | either item others =>
    obtain ⟨second, rest, h⟩ := List.exists_cons_of_ne_nil others.types_ne_nil
    rw [Union.types, Union.type, h]
    rfl

/-! ### At most one tree -/

theorem cancel_brackets {n m : Nat} {rest rest' : List Token}
    (h : List.replicate n (Token.symbolOf "[]") ++ rest =
      List.replicate m (Token.symbolOf "[]") ++ rest')
    (hrest : EndsItem rest) (hrest' : EndsItem rest') : n = m ∧ rest = rest' := by
  induction n generalizing m with
  | zero =>
    cases m with
    | zero => exact ⟨rfl, h⟩
    | succ m =>
      refine absurd ?_ hrest
      rw [List.replicate_zero, List.nil_append] at h
      rw [h]
      rfl
  | succ n ih =>
    cases m with
    | zero =>
      refine absurd ?_ hrest'
      rw [List.replicate_zero, List.nil_append] at h
      rw [← h]
      rfl
    | succ m =>
      obtain ⟨rfl, hrests⟩ := ih (List.tail_eq_of_cons_eq h)
      exact ⟨rfl, hrests⟩

theorem endsUnion_symbol {symbol : String} (hbrackets : Token.symbolOf symbol ≠ Token.symbolOf "[]")
    (hbar : Token.symbolOf symbol ≠ Token.symbolOf "|") (rest : List Token) :
    EndsUnion (Token.symbolOf symbol :: rest) :=
  ⟨fun h => hbrackets (Option.some.inj h), fun h => hbar (Option.some.inj h)⟩

theorem endsUnion_parenthesis (rest : List Token) : EndsUnion (Token.symbolOf ")" :: rest) :=
  endsUnion_symbol (by decide) (by decide) rest

theorem endsUnion_angle (rest : List Token) : EndsUnion (Token.symbolOf ">" :: rest) :=
  endsUnion_symbol (by decide) (by decide) rest

theorem endsItem_bar (rest : List Token) : EndsItem (Token.symbolOf "|" :: rest) :=
  fun h => absurd (Option.some.inj h) (by decide)

theorem endsUnion_nil : EndsUnion [] := ⟨nofun, nofun⟩

mutual

/-- Two atoms at the start of one row are the same, whatever stands behind them. -/
theorem Atom.eq_of_tokens_append (a a' : Atom) {rest rest' : List Token}
    (h : a.tokens ++ rest = a'.tokens ++ rest') : a = a' ∧ rest = rest' := by
  cases a with
  | quoted lexeme =>
    cases a' with
    | quoted lexeme' =>
      obtain ⟨rfl, hrest⟩ : lexeme = lexeme' ∧ rest = rest' := by simpa [Atom.tokens] using h
      exact ⟨rfl, hrest⟩
    | _ => simp [Atom.tokens, Token.symbolOf, Word.token, arrayToken] at h
  | number lexeme =>
    cases a' with
    | number lexeme' =>
      obtain ⟨rfl, hrest⟩ : lexeme = lexeme' ∧ rest = rest' := by simpa [Atom.tokens] using h
      exact ⟨rfl, hrest⟩
    | _ => simp [Atom.tokens, Token.symbolOf, Word.token, arrayToken] at h
  | enclosed inner =>
    cases a' with
    | enclosed inner' =>
      have htail : inner.tokens ++ Token.symbolOf ")" :: rest =
          inner'.tokens ++ Token.symbolOf ")" :: rest' := by
        simpa [Atom.tokens] using h
      obtain ⟨rfl, hrest⟩ := Union.eq_of_tokens_append inner inner' htail
        (endsUnion_parenthesis rest) (endsUnion_parenthesis rest')
      exact ⟨rfl, List.tail_eq_of_cons_eq hrest⟩
    | _ => simp [Atom.tokens, Token.symbolOf, Word.token, arrayToken] at h
  | word w =>
    cases a' with
    | word w' =>
      obtain ⟨htoken, hrest⟩ : w.token = w'.token ∧ rest = rest' := by
        simpa [Atom.tokens] using h
      exact ⟨congrArg Atom.word (Word.token_injective htoken), hrest⟩
    | array element' => exact absurd (List.head_eq_of_cons_eq h) w.token_ne_array
    | _ => simp [Atom.tokens, Token.symbolOf, Word.token] at h
  | array element =>
    cases a' with
    | array element' =>
      have htail : element.tokens ++ Token.symbolOf ">" :: rest =
          element'.tokens ++ Token.symbolOf ">" :: rest' := by
        simpa [Atom.tokens] using h
      obtain ⟨rfl, hrest⟩ := Union.eq_of_tokens_append element element' htail
        (endsUnion_angle rest) (endsUnion_angle rest')
      exact ⟨rfl, List.tail_eq_of_cons_eq hrest⟩
    | word w' => exact absurd (List.head_eq_of_cons_eq h).symm w'.token_ne_array
    | _ => simp [Atom.tokens, Token.symbolOf, arrayToken] at h

theorem Item.eq_of_tokens_append (i i' : Item) {rest rest' : List Token}
    (h : i.tokens ++ rest = i'.tokens ++ rest') (hrest : EndsItem rest)
    (hrest' : EndsItem rest') : i = i' ∧ rest = rest' := by
  cases i with
  | mk atom n =>
    cases i' with
    | mk atom' n' =>
      rw [Item.tokens, Item.tokens, List.append_assoc, List.append_assoc] at h
      obtain ⟨rfl, hbrackets⟩ := Atom.eq_of_tokens_append atom atom' h
      obtain ⟨rfl, hrests⟩ := cancel_brackets hbrackets hrest hrest'
      exact ⟨rfl, hrests⟩

theorem Union.eq_of_tokens_append (u u' : Union) {rest rest' : List Token}
    (h : u.tokens ++ rest = u'.tokens ++ rest') (hrest : EndsUnion rest)
    (hrest' : EndsUnion rest') : u = u' ∧ rest = rest' := by
  cases u with
  | single item =>
    cases u' with
    | single item' =>
      obtain ⟨rfl, hrests⟩ := Item.eq_of_tokens_append item item' h hrest.1 hrest'.1
      exact ⟨rfl, hrests⟩
    | either item' others' =>
      rw [Union.tokens, Union.tokens, List.append_assoc] at h
      obtain ⟨-, rfl⟩ := Item.eq_of_tokens_append item item' h hrest.1 (endsItem_bar _)
      exact absurd rfl hrest.2
  | either item others =>
    cases u' with
    | single item' =>
      rw [Union.tokens, Union.tokens, List.append_assoc] at h
      obtain ⟨-, rfl⟩ := Item.eq_of_tokens_append item item' h (endsItem_bar _) hrest'.1
      exact absurd rfl hrest'.2
    | either item' others' =>
      rw [Union.tokens, Union.tokens, List.append_assoc, List.append_assoc] at h
      obtain ⟨rfl, hbar⟩ :=
        Item.eq_of_tokens_append item item' h (endsItem_bar _) (endsItem_bar _)
      obtain ⟨rfl, hrests⟩ :=
        Union.eq_of_tokens_append others others' (List.tail_eq_of_cons_eq hbar) hrest hrest'
      exact ⟨rfl, hrests⟩

end

/-- A row of tokens is derived in one way at most. -/
theorem Union.tokens_injective {u u' : Union} (h : u.tokens = u'.tokens) : u = u' := by
  have happend : u.tokens ++ [] = u'.tokens ++ [] := by rw [h]
  exact (Union.eq_of_tokens_append u u' happend endsUnion_nil endsUnion_nil).1

end SchemaAtlas.FieldType.Grammar
