import Mathlib.Data.List.Lex
import Mathlib.Data.Prod.Lex
import Mathlib.Data.String.Basic
import SchemaAtlas.Proofs.FieldType.Unambiguous
import SchemaAtlas.Proofs.Query.Covering
import SchemaAtlas.Proofs.Query.Matching

/-!
# The order of variants

Variants are shown in the order of their rendered fields, the names in front. This is a total order of
the renderings, so the renderings that are shown depend only on which variants there are. Which of two
variants with one rendering comes first is left to the order in which they were put together. Declared
schemas with one rendering are the same if their texts hold no quote and the names inside their maps no
mark; of such schemas no two variants have one rendering.
-/
namespace SchemaAtlas

/-! ### Lexicographic order -/

section Lex

variable {α : Type} [LinearOrder α]

theorem nil_le_list (as : List α) : [] ≤ as := by
  cases as with
  | nil => exact le_rfl
  | cons a as => exact le_of_lt (List.Lex.nil : List.Lex (· < ·) [] (a :: as))

theorem not_cons_le_nil (a : α) (as : List α) : ¬ a :: as ≤ [] :=
  not_le.2 (List.Lex.nil : List.Lex (· < ·) [] (a :: as))

theorem cons_le_cons_iff {a b : α} {as bs : List α} :
    a :: as ≤ b :: bs ↔ a < b ∨ a = b ∧ as ≤ bs := by
  have hlt : a :: as < b :: bs ↔ a < b ∨ a = b ∧ as < bs := List.cons_lex_cons_iff
  rw [le_iff_lt_or_eq, le_iff_lt_or_eq, hlt, List.cons.injEq]
  tauto

end Lex

namespace Schema

theorem renderedLe_iff {a b : String × String} : renderedLe a b = true ↔ toLex a ≤ toLex b := by
  rw [renderedLe, Prod.Lex.toLex_le_toLex']
  split
  · rename_i h
    simp [h]
  · rename_i h
    simp [h]

/-- Rendered fields as what they are ordered by. -/
def sortKey (rows : List (String × String)) : List (String ×ₗ String) := rows.map toLex

theorem sortKey_injective : Function.Injective sortKey := List.map_injective_iff.2 toLex.injective

/-- The order by which schemas are sorted, on their rendered fields. -/
def rowsLe (as bs : List (String × String)) : Bool := listLe renderedLe (· == ·) as bs

/-- Rendered fields are ordered as lists of pairs are, lexicographically in both ways. -/
theorem rowsLe_iff {as bs : List (String × String)} :
    rowsLe as bs = true ↔ sortKey as ≤ sortKey bs := by
  unfold rowsLe sortKey
  induction as generalizing bs with
  | nil => exact iff_of_true rfl (nil_le_list _)
  | cons a as ih =>
    cases bs with
    | nil => exact iff_of_false Bool.false_ne_true (not_cons_le_nil _ _)
    | cons b bs =>
      rw [listLe, List.map_cons, List.map_cons, cons_le_cons_iff]
      split
      · rename_i h
        rw [ih, beq_iff_eq.1 h]
        simp
      · rename_i h
        have hne : toLex a ≠ toLex b := fun hab => h (beq_iff_eq.2 hab)
        rw [renderedLe_iff, le_iff_lt_or_eq]
        simp [hne]

theorem rowsLe_total (as bs : List (String × String)) :
    rowsLe as bs = true ∨ rowsLe bs as = true := by
  rw [rowsLe_iff, rowsLe_iff]
  exact le_total _ _

theorem rowsLe_trans (as bs cs : List (String × String)) (hab : rowsLe as bs = true)
    (hbc : rowsLe bs cs = true) : rowsLe as cs = true :=
  rowsLe_iff.2 (le_trans (rowsLe_iff.1 hab) (rowsLe_iff.1 hbc))

theorem rowsLe_antisymm {as bs : List (String × String)} (hab : rowsLe as bs = true)
    (hba : rowsLe bs as = true) : as = bs :=
  sortKey_injective (le_antisymm (rowsLe_iff.1 hab) (rowsLe_iff.1 hba))

/-! ### Schemas with the same rendering -/

/-- All types are clear. The names of the fields themselves may be any, for they are kept apart. -/
def Clear (s : Schema) : Prop := ∀ field ∈ s.fields, field.2.Clear

theorem Declared.transparent {s : Schema} (hs : s.Declared) (hclear : s.Clear) :
    ∀ field ∈ s.fields, field.2.Transparent := by
  intro field hfield
  obtain ⟨v, hv⟩ := hs field hfield
  exact ⟨Value.normal_of_declaredType hv, hclear field hfield,
    FieldType.rounded_of_declaredType hv⟩

theorem sameFields_of_rendered_eq {as bs : List (String × FieldType)}
    (has : ∀ field ∈ as, field.2.Transparent) (hbs : ∀ field ∈ bs, field.2.Transparent)
    (h : as.map (fun field => (field.1, field.2.render)) =
      bs.map fun field => (field.1, field.2.render)) :
    FieldType.SameFields as bs := by
  induction as generalizing bs with
  | nil =>
    rw [List.map_nil, eq_comm, List.map_eq_nil_iff] at h
    rw [h]
    exact .nil
  | cons a as ih =>
    cases bs with
    | nil => cases h
    | cons b bs =>
      obtain ⟨ha, has⟩ := List.forall_mem_cons.1 has
      obtain ⟨hb, hbs⟩ := List.forall_mem_cons.1 hbs
      obtain ⟨hhead, htail⟩ := List.cons.inj h
      obtain ⟨hname, hrender⟩ := Prod.mk.inj hhead
      exact .cons ⟨hname, ha.same_of_render_eq hb hrender⟩ (ih has hbs htail)

/-- Clear declared schemas with the same rendered fields are the same. -/
theorem Declared.same_of_rendered_eq {a b : Schema} (ha : a.Declared) (hb : b.Declared)
    (hclearA : a.Clear) (hclearB : b.Clear) (h : a.rendered = b.rendered) : a.same b = true :=
  FieldType.sameFields_iff.2
    (sameFields_of_rendered_eq (ha.transparent hclearA) (hb.transparent hclearB) h)

end Schema

namespace SchemaUnion

variable {u w : SchemaUnion}

/-- The renderings come in one order, whatever the order of the variants. -/
theorem rendered_ordered_of_perm (h : u.variants.Perm w.variants) :
    u.ordered.map (·.schema.rendered) = w.ordered.map (·.schema.rendered) := by
  have hsorted (u : SchemaUnion) : u.ordered.map (·.schema.rendered) =
      sortBy Schema.rowsLe (u.variants.map (·.schema.rendered)) :=
    (sortBy_map (fun v : Variant => v.schema.rendered) Schema.rowsLe u.variants).symm
  rw [hsorted u, hsorted w]
  exact sortBy_eq_of_perm Schema.rowsLe_total Schema.rowsLe_trans
    (fun _ _ _ _ => Schema.rowsLe_antisymm) (h.map _)

/-- So do the variants themselves, with their origins, if their schemas are clear. -/
theorem ordered_eq_of_perm (hdistinct : Distinct u.variants) (hdeclared : u.OfDeclarations)
    (hclear : ∀ v ∈ u.variants, v.schema.Clear) (h : u.variants.Perm w.variants) :
    u.ordered = w.ordered := by
  refine sortBy_eq_of_perm (fun v x => Schema.rowsLe_total v.schema.rendered x.schema.rendered)
    (fun v x y => Schema.rowsLe_trans v.schema.rendered x.schema.rendered y.schema.rendered)
    (fun v hv x hx hvx hxv => ?_) h
  have hsame := (hdeclared v hv).same_of_rendered_eq (hdeclared x hx) (hclear v hv) (hclear x hx)
    (Schema.rowsLe_antisymm hvx hxv)
  exact hdistinct.eq_of_same hv hx hsame x.schema.same_refl

/--
Clear declared schemas with the same rendered fields are the same. The renderings of the variants come
in one order, however the variants were put together, and variants with clear schemas do so themselves.
-/
theorem ordered_determined (a b : Schema) (u w : SchemaUnion) :
    (a.Declared → b.Declared → a.Clear → b.Clear → a.rendered = b.rendered → a.same b = true) ∧
    (u.variants.Perm w.variants →
      u.ordered.map (·.schema.rendered) = w.ordered.map (·.schema.rendered) ∧
        (Distinct u.variants → u.OfDeclarations → (∀ v ∈ u.variants, v.schema.Clear) →
          u.ordered = w.ordered)) := by
  refine ⟨fun ha hb hclearA hclearB => ha.same_of_rendered_eq hb hclearA hclearB, fun hperm => ?_⟩
  refine ⟨rendered_ordered_of_perm hperm, fun hdistinct hdeclared hclear => ?_⟩
  exact ordered_eq_of_perm hdistinct hdeclared hclear hperm

/-- A text between quotes, as an atom of the grammar. -/
def quotedAtom (value : String) : FieldType.Grammar.Item :=
  .mk (.quoted ('\x27' :: (value.toList ++ ['\x27']))) 0

theorem type_quotedAtom (value : String) : (quotedAtom value).type = .text value := by
  rw [quotedAtom, FieldType.Grammar.Item.type, Function.iterate_zero, id_eq,
    FieldType.Grammar.Atom.type, List.drop_succ_cons, List.drop_zero, List.dropLast_concat,
    String.ofList_toList]

/-- Two different texts between quotes declare the union of the two. -/
theorem declaredType_texts {source first second : String} (hne : first ≠ second)
    (htokens : FieldType.tokens source =
      .ok (FieldType.Grammar.Union.either (quotedAtom first) (.single (quotedAtom second))).tokens) :
    Value.declaredType (.text source) = .ok (.union [.text first, .text second]) := by
  refine Value.declaredType_of_tokens htokens ?_
  have hdiffer : FieldType.same (.text first) (.text second) = false := by
    rw [FieldType.text, FieldType.text, FieldType.same, Literal.same]
    exact beq_false_of_ne hne
  rw [FieldType.Grammar.Union.type, FieldType.Grammar.Union.types, type_quotedAtom, type_quotedAtom]
  exact FieldType.unionOf_eq_self (by simp) (by simp [FieldType.text, FieldType.isAny])
    (by simp [FieldType.text, FieldType.isUnion]) (by simp [hdiffer])

/-- A union of two letters is the same in both orders, and so is its rendering. -/
theorem ordered_determined_letters :
    let letters : Schema := ⟨[("letter", .union [.text "a", .text "b"])]⟩
    let reversed : Schema := ⟨[("letter", .union [.text "b", .text "a"])]⟩
    let home : Schema := ⟨[("home", .map [("town", .text "x")])]⟩
    let u := candidates [⟨letters, ["a/1"]⟩, ⟨home, ["b/1"]⟩] none
    let w := candidates [⟨home, ["b/1"]⟩, ⟨letters, ["a/1"]⟩] none
    letters.rendered = reversed.rendered ∧ letters.same reversed = true ∧
      u.variants.Perm w.variants ∧ u.ordered = w.ordered := by
  intro letters reversed home u w
  have hletters : letters.Declared := List.forall_mem_singleton.2
    ⟨.text "'a' | 'b'", declaredType_texts (by decide) (by decide +kernel)⟩
  have hreversed : reversed.Declared := List.forall_mem_singleton.2
    ⟨.text "'b' | 'a'", declaredType_texts (by decide) (by decide +kernel)⟩
  have hhome : home.Declared := by
    have htown : Value.declaredType (.text "'x'") = .ok (.text "x") :=
      Value.declaredType_of_tokens (u := .single (quotedAtom "x")) (by decide +kernel)
        (type_quotedAtom "x")
    refine List.forall_mem_singleton.2 ⟨.mapping [(.text "town", .text "'x'")], ?_⟩
    rw [Value.declaredType, Value.declaredFields, htown]
    rfl
  have hclear (value : String) (h : '\x27' ∉ value.toList) : (FieldType.text value).Clear :=
    .literal h
  have hclearLetters : letters.Clear := List.forall_mem_singleton.2 (.union
    (List.forall_mem_cons.2 ⟨hclear "a" (by decide),
      List.forall_mem_singleton.2 (hclear "b" (by decide))⟩))
  have hclearReversed : reversed.Clear := List.forall_mem_singleton.2 (.union
    (List.forall_mem_cons.2 ⟨hclear "b" (by decide),
      List.forall_mem_singleton.2 (hclear "a" (by decide))⟩))
  have htown : Text.Unmarked "town".toList := by
    unfold Text.Unmarked
    decide +kernel
  have hclearHome : home.Clear := List.forall_mem_singleton.2 (.map
    (List.forall_mem_singleton.2 htown) (List.forall_mem_singleton.2 (hclear "x" (by decide))))
  have hrendered : letters.rendered = reversed.rendered := by decide +kernel
  have hperm : u.variants.Perm w.variants := .swap _ _ []
  have hdistinct : Distinct u.variants := by
    unfold Distinct
    decide +kernel
  obtain ⟨hsame, hordered⟩ := ordered_determined letters reversed u w
  refine ⟨hrendered, hsame hletters hreversed hclearLetters hclearReversed hrendered,
    hperm, (hordered hperm).2 hdistinct ?_ ?_⟩
  · exact List.forall_mem_cons.2 ⟨hletters, List.forall_mem_singleton.2 hhome⟩
  · exact List.forall_mem_cons.2 ⟨hclearLetters, List.forall_mem_singleton.2 hclearHome⟩

/--
Quotes within a text and a mark within a name are rendered like those around them. The renderings of
two different schemas are then the same, and the order of their variants is the one they are put in.
-/
theorem exists_rendered_eq_of_not_same :
    let letters : Schema := ⟨[("role", .union [.text "a", .text "b"])]⟩
    let quotes : Schema := ⟨[("role", .text "a' | 'b")]⟩
    let pair : Schema := ⟨[("p", .map [("a", .text "x"), ("b", .text "y")])]⟩
    let mark : Schema := ⟨[("p", .map [("a: 'x', b", .text "y")])]⟩
    let u := candidates [⟨letters, ["a/1"]⟩, ⟨quotes, ["b/1"]⟩] none
    let w := candidates [⟨quotes, ["b/1"]⟩, ⟨letters, ["a/1"]⟩] none
    letters.Declared ∧ quotes.Declared ∧ letters.rendered = quotes.rendered ∧
      letters.same quotes = false ∧ pair.Declared ∧ mark.Declared ∧ pair.rendered = mark.rendered ∧
      pair.same mark = false ∧ u.variants.Perm w.variants ∧ u.ordered ≠ w.ordered := by
  intro letters quotes pair mark u w
  have hletters : letters.Declared := List.forall_mem_singleton.2
    ⟨.text "'a' | 'b'", declaredType_texts (by decide) (by decide +kernel)⟩
  have hquotes : quotes.Declared := by
    refine List.forall_mem_singleton.2 ⟨.text "\"a' | 'b\"", ?_⟩
    exact Value.declaredType_of_tokens
      (u := .single (.mk (.quoted "\"a' | 'b\"".toList) 0)) (by decide +kernel) rfl
  have hx : Value.declaredType (.text "'x'") = .ok (.text "x") :=
    Value.declaredType_of_tokens (u := .single (quotedAtom "x")) (by decide +kernel)
      (type_quotedAtom "x")
  have hy : Value.declaredType (.text "'y'") = .ok (.text "y") :=
    Value.declaredType_of_tokens (u := .single (quotedAtom "y")) (by decide +kernel)
      (type_quotedAtom "y")
  have hpair : pair.Declared := by
    refine List.forall_mem_singleton.2
      ⟨.mapping [(.text "a", .text "'x'"), (.text "b", .text "'y'")], ?_⟩
    rw [Value.declaredType, Value.declaredFields, hx, Value.declaredFields, hy]
    rfl
  have hmark : mark.Declared := by
    refine List.forall_mem_singleton.2 ⟨.mapping [(.text "a: 'x', b", .text "'y'")], ?_⟩
    rw [Value.declaredType, Value.declaredFields, hy]
    rfl
  have hdiffer : u.ordered.map (·.origins) ≠ w.ordered.map (·.origins) := by decide +kernel
  refine ⟨hletters, hquotes, by decide +kernel, by decide +kernel, hpair, hmark, by decide +kernel,
    by decide +kernel, .swap _ _ [], fun h => hdiffer (by rw [h])⟩

end SchemaUnion
end SchemaAtlas
