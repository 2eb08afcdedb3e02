import Mathlib.Data.List.Induction
import SchemaAtlas.Proofs.Path

/-!
# Literal paths in a tree

A path of names stands for one node at most, and a path that leads nowhere leads nowhere with more
segments either. So every prefix of a declared path is declared.
-/
namespace SchemaAtlas

namespace SchemaTree

variable {t : SchemaTree} {frontier : Frontier} {segment : Segment}

theorem nodesAt_concat (t : SchemaTree) (segments : List Segment) (segment : Segment) :
    t.nodesAt ⟨segments ++ [segment]⟩ = t.advance (t.nodesAt ⟨segments⟩) segment :=
  List.foldl_append

theorem nodesAt_ofNames_concat (t : SchemaTree) (names : List String) (name : String) :
    t.nodesAt (.ofNames (names ++ [name])) =
      t.advance (t.nodesAt (.ofNames names)) ⟨name, .literal⟩ := by
  rw [Path.ofNames, List.map_append]
  exact t.nodesAt_concat _ _

theorem declares_iff {path : Path} : t.declares path = true ↔ (t.nodesAt path).size ≠ 0 := by
  rw [declares, bne_iff_ne]

/-! ### Prefixes -/

theorem size_advance_eq_zero (h : frontier.size = 0) : (t.advance frontier segment).size = 0 := by
  cases frontier with
  | documents places =>
    obtain rfl := List.length_eq_zero_iff.1 h
    rfl
  | collections places =>
    obtain rfl := List.length_eq_zero_iff.1 h
    rfl

theorem declares_of_concat {names : List String} {name : String}
    (h : t.declares (.ofNames (names ++ [name])) = true) : t.declares (.ofNames names) = true := by
  rw [declares_iff, nodesAt_ofNames_concat] at h
  exact declares_iff.2 fun hzero => h (size_advance_eq_zero hzero)

/-! ### No fan-out -/

theorem length_flatMap_le_one {α β : Type} {f : α → List β} {xs : List α}
    (hf : ∀ x, (f x).length ≤ 1) (hxs : xs.length ≤ 1) : (xs.flatMap f).length ≤ 1 := by
  match xs, hxs with
  | [], _ => exact Nat.zero_le 1
  | [x], _ => rw [List.flatMap_singleton]; exact hf x

theorem length_intoCollections_le_one (hliteral : segment.isWildcard = false)
    (place : Located DocumentRef) : (t.intoCollections segment place).length ≤ 1 := by
  rw [intoCollections, hliteral, if_neg Bool.false_ne_true]
  split
  · exact Nat.le_refl 1
  · exact Nat.zero_le 1

theorem length_intoDocuments_le_one (hliteral : segment.isWildcard = false) (place : Located Nat) :
    (t.intoDocuments segment place).length ≤ 1 := by
  rw [intoDocuments, hliteral, if_neg Bool.false_ne_true]
  split
  · exact Nat.le_refl 1
  · exact Nat.zero_le 1

/-- A name leads from one node to one node at most. -/
theorem size_advance_le_one (hliteral : segment.isWildcard = false) (h : frontier.size ≤ 1) :
    (t.advance frontier segment).size ≤ 1 := by
  cases frontier with
  | documents places => exact length_flatMap_le_one (length_intoCollections_le_one hliteral) h
  | collections places => exact length_flatMap_le_one (length_intoDocuments_le_one hliteral) h

theorem size_nodesAt_ofNames_le_one (t : SchemaTree) (names : List String) :
    (t.nodesAt (.ofNames names)).size ≤ 1 := by
  induction names using List.reverseRecOn with
  | nil => exact Nat.le_refl 1
  | append_singleton names name ih =>
    rw [nodesAt_ofNames_concat]
    exact size_advance_le_one rfl ih

end SchemaTree
end SchemaAtlas
