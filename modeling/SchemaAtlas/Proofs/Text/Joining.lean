import Mathlib.Data.List.Forall2
import Mathlib.Data.List.Infix
import SchemaAtlas.Text.Blank

/-!
# Joined texts are taken apart

Texts that stand behind one another, each of them behind a separator, are found again from the front if
every one of them ends where its separator begins. A name in front of a mark is found again if the mark
is nowhere in the name.
-/
namespace SchemaAtlas.Text

/-- The parts, every one of them behind a separator, in front of a rest. -/
def behind (separator : String) (parts : List String) (rest : List Char) : List Char :=
  parts.foldr (fun part rest => separator.toList ++ (part.toList ++ rest)) rest

@[simp] theorem behind_nil (separator : String) (rest : List Char) :
    behind separator [] rest = rest := rfl

@[simp] theorem behind_cons (separator part : String) (parts : List String) (rest : List Char) :
    behind separator (part :: parts) rest =
      separator.toList ++ (part.toList ++ behind separator parts rest) := rfl

/-- Joined texts lack no more than the first separator. -/
theorem separator_append_joinWith (separator : String) {parts : List String} (hne : parts ≠ [])
    (rest : List Char) :
    separator.toList ++ ((joinWith separator parts).toList ++ rest) =
      behind separator parts rest := by
  induction parts with
  | nil => exact absurd rfl hne
  | cons part parts ih =>
    cases parts with
    | nil => rfl
    | cons next parts =>
      have hrest := ih (List.cons_ne_nil next parts)
      rw [behind_cons, ← hrest, joinWith, String.toList_append, String.toList_append]
      · simp only [List.append_assoc]
      · exact fun h => List.cons_ne_nil next parts h

section Parts

variable {α : Type} {separator : String} {mark : Char} {follows : List Char → Prop}
  {text : α → String} {R : α → α → Prop}

/--
Two rows of parts in front of a rest agree part by part, if each part is determined by what stands from
it on, and if no rest begins like the separator.
-/
theorem forall₂_of_behind_eq (hmark : separator.toList.head? = some mark)
    (hfollows : ∀ rest, follows (separator.toList ++ rest)) {as bs : List α} {ra rb : List Char}
    (hparts : ∀ a ∈ as, ∀ b ∈ bs, ∀ ra rb, follows ra → follows rb →
      (text a).toList ++ ra = (text b).toList ++ rb → R a b ∧ ra = rb)
    (hra : follows ra) (hrb : follows rb) (hendA : ra.head? ≠ some mark)
    (hendB : rb.head? ≠ some mark)
    (h : behind separator (as.map text) ra = behind separator (bs.map text) rb) :
    List.Forall₂ R as bs ∧ ra = rb := by
  have hhead : ∀ rest, (separator.toList ++ rest).head? = some mark := by
    intro rest
    rw [List.head?_append, hmark]
    rfl
  have hbehind : ∀ (cs : List α) {rest : List Char}, follows rest →
      follows (behind separator (cs.map text) rest) := by
    intro cs rest hrest
    cases cs with
    | nil => exact hrest
    | cons c cs => exact hfollows _
  induction as generalizing bs with
  | nil =>
    cases bs with
    | nil => exact ⟨.nil, h⟩
    | cons b bs =>
      rw [List.map_nil, behind_nil, List.map_cons, behind_cons] at h
      exact absurd (h ▸ hhead _) hendA
  | cons a as ih =>
    cases bs with
    | nil =>
      rw [List.map_nil, behind_nil, List.map_cons, behind_cons] at h
      exact absurd (h ▸ hhead _) hendB
    | cons b bs =>
      rw [List.map_cons, List.map_cons, behind_cons, behind_cons] at h
      obtain ⟨hab, hrest⟩ := hparts a List.mem_cons_self b List.mem_cons_self _ _ (hbehind as hra)
        (hbehind bs hrb) (List.append_cancel_left h)
      obtain ⟨hall, heq⟩ := ih (fun a ha b hb => hparts a (List.mem_cons_of_mem _ ha) b
        (List.mem_cons_of_mem _ hb)) hrest
      exact ⟨.cons hab hall, heq⟩

end Parts

/-! ### Texts in front of a mark -/

/-- Texts that a character is not in end where it comes first. -/
theorem eq_of_append_cons {c : Char} {cs ds ra rb : List Char} (hcs : c ∉ cs) (hds : c ∉ ds)
    (h : cs ++ c :: ra = ds ++ c :: rb) : cs = ds ∧ ra = rb := by
  rcases List.append_eq_append_iff.1 h with ⟨es, rfl, hes⟩ | ⟨es, rfl, hes⟩
  · cases es with
    | nil => exact ⟨(List.append_nil cs).symm, List.tail_eq_of_cons_eq hes⟩
    | cons e es =>
      rw [List.head_eq_of_cons_eq hes] at hds
      exact absurd (List.mem_append_right cs List.mem_cons_self) hds
  · cases es with
    | nil => exact ⟨List.append_nil ds, (List.tail_eq_of_cons_eq hes).symm⟩
    | cons e es =>
      rw [List.head_eq_of_cons_eq hes] at hcs
      exact absurd (List.mem_append_right ds List.mem_cons_self) hcs

/-- A name that the mark between names and types is not in. -/
def Unmarked (name : List Char) : Prop := ¬ [':', ' '] <:+: name

/-- What is behind a name and still in front of a mark would hold the mark, if anything. -/
theorem eq_nil_of_unmarked_append {ns ds ss ts : List Char} (hn : Unmarked (ns ++ ds))
    (h : ':' :: ' ' :: ss = ds ++ ':' :: ' ' :: ts) : ds = [] := by
  match ds with
  | [] => rfl
  | [d] =>
    rw [List.singleton_append, List.cons.injEq, List.cons.injEq] at h
    exact absurd h.2.1 (by decide)
  | d :: e :: ds =>
    rw [List.cons_append, List.cons_append, List.cons.injEq, List.cons.injEq] at h
    obtain ⟨rfl, rfl, -⟩ := h
    exact absurd ⟨ns, ds, by rw [List.append_assoc]; rfl⟩ hn

theorem eq_of_append_mark {ns ms ss ts : List Char} (hn : Unmarked ns) (hm : Unmarked ms)
    (h : ns ++ ':' :: ' ' :: ss = ms ++ ':' :: ' ' :: ts) : ns = ms ∧ ss = ts := by
  rcases List.append_eq_append_iff.1 h with ⟨ds, rfl, hds⟩ | ⟨ds, rfl, hds⟩
  · obtain rfl := eq_nil_of_unmarked_append hm hds
    exact ⟨(List.append_nil ns).symm, by simpa using hds⟩
  · obtain rfl := eq_nil_of_unmarked_append hn hds
    exact ⟨List.append_nil ms, by simpa using hds.symm⟩

end SchemaAtlas.Text
