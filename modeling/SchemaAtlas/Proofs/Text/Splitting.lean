import SchemaAtlas.Text.Blank

/-!
# Parts of a text

A text without the separator is its own only part, and no part of any text holds the separator. The
parts of two texts that are joined by the separator are those of both, so splitting and joining are
inverse. A part is empty exactly where nothing stands on one side of a separator.
-/
namespace SchemaAtlas.Text

theorem splitAt_of_not_mem {separator : Char} {cs : List Char} (h : separator ∉ cs) :
    splitAt separator cs = [cs] := by
  induction cs with
  | nil => rfl
  | cons c cs ih =>
    obtain ⟨hc, hcs⟩ := List.ne_and_not_mem_of_not_mem_cons h
    rw [splitAt, if_neg (Ne.symm hc), ih hcs]

theorem split_of_not_mem {separator : Char} {s : String} (h : separator ∉ s.toList) :
    split separator s = [s] := by
  rw [split, splitAt_of_not_mem h, List.map_singleton, String.ofList_toList]

theorem not_mem_of_mem_splitAt {separator : Char} {cs part : List Char}
    (h : part ∈ splitAt separator cs) : separator ∉ part := by
  induction cs generalizing part with
  | nil =>
    obtain rfl := List.mem_singleton.1 h
    exact List.not_mem_nil
  | cons c cs ih =>
    unfold splitAt at h
    split at h
    · rcases List.mem_cons.1 h with rfl | hrest
      · exact List.not_mem_nil
      · exact ih hrest
    · rename_i hc
      split at h
      · obtain rfl := List.mem_singleton.1 h
        exact mt List.mem_singleton.1 (Ne.symm hc)
      · rename_i first rest hparts
        rcases List.mem_cons.1 h with rfl | hrest
        · have hfirst := ih (hparts ▸ List.mem_cons_self)
          exact List.not_mem_cons_of_ne_of_not_mem (Ne.symm hc) hfirst
        · exact ih (hparts ▸ List.mem_cons_of_mem first hrest)

theorem not_mem_of_mem_split {separator : Char} {s part : String} (h : part ∈ split separator s) :
    separator ∉ part.toList := by
  obtain ⟨cs, hcs, rfl⟩ := List.mem_map.1 h
  rw [String.toList_ofList]
  exact not_mem_of_mem_splitAt hcs

/-! ### Joined texts -/

theorem splitAt_ne_nil (separator : Char) (cs : List Char) : splitAt separator cs ≠ [] := by
  cases cs with
  | nil => exact List.cons_ne_nil _ _
  | cons c cs =>
    rw [splitAt]
    split
    · exact List.cons_ne_nil _ _
    · split <;> exact List.cons_ne_nil _ _

/-- The parts on both sides of a separator. -/
theorem splitAt_append (separator : Char) (cs ds : List Char) :
    splitAt separator (cs ++ separator :: ds) = splitAt separator cs ++ splitAt separator ds := by
  induction cs with
  | nil => exact if_pos rfl
  | cons c cs ih =>
    rw [List.cons_append, splitAt, splitAt, ih]
    split
    · rfl
    · cases h : splitAt separator cs with
      | nil => exact absurd h (splitAt_ne_nil separator cs)
      | cons part parts => rfl

theorem split_append (separator : Char) (s t : String) :
    split separator (s ++ String.singleton separator ++ t) =
      split separator s ++ split separator t := by
  rw [split, String.toList_append, String.toList_append, String.toList_singleton,
    List.append_assoc, List.singleton_append, splitAt_append, List.map_append]
  rfl

theorem joinWith_cons (separator part : String) {parts : List String} (h : parts ≠ []) :
    joinWith separator (part :: parts) = part ++ separator ++ joinWith separator parts := by
  cases parts with
  | nil => exact absurd rfl h
  | cons next parts => rfl

/-- What is not between the parts stands in one of them. -/
theorem mem_joinWith {separator : String} {c : Char} (h : c ∉ separator.toList)
    {parts : List String} :
    c ∈ (joinWith separator parts).toList ↔ ∃ part ∈ parts, c ∈ part.toList := by
  induction parts with
  | nil => exact ⟨nofun, nofun⟩
  | cons part parts ih =>
    by_cases hparts : parts = []
    · subst hparts
      simp only [joinWith, List.mem_singleton, exists_eq_left]
    · rw [joinWith_cons _ _ hparts, String.toList_append, String.toList_append, List.mem_append,
        List.mem_append, or_iff_left h, ih]
      simp only [List.mem_cons, exists_eq_or_imp]

theorem joinWith_append_cons (separator s part : String) (parts : List String) :
    joinWith separator ((s ++ part) :: parts) = s ++ joinWith separator (part :: parts) := by
  cases parts with
  | nil => rfl
  | cons next parts => simp only [joinWith, String.append_assoc]

theorem joinWith_splitAt (separator : Char) (cs : List Char) :
    joinWith (String.singleton separator) ((splitAt separator cs).map String.ofList) =
      String.ofList cs := by
  induction cs with
  | nil => rfl
  | cons c cs ih =>
    rw [splitAt, String.ofList_cons, ← ih]
    split
    · rename_i hc
      have hparts : (splitAt separator cs).map String.ofList ≠ [] :=
        mt List.map_eq_nil_iff.1 (splitAt_ne_nil separator cs)
      rw [List.map_cons, joinWith_cons _ _ hparts, hc]
      exact congrArg (· ++ _) String.empty_append
    · cases h : splitAt separator cs with
      | nil => exact absurd h (splitAt_ne_nil separator cs)
      | cons part parts =>
        rw [List.map_cons, List.map_cons, String.ofList_cons, joinWith_append_cons]

/-- The parts of a text, joined again, are the text. -/
theorem joinWith_split (separator : Char) (s : String) :
    joinWith (String.singleton separator) (split separator s) = s := by
  rw [split, joinWith_splitAt, String.ofList_toList]

/-- Parts without the separator, joined by it, are the parts of the text. -/
theorem split_joinWith {separator : Char} {parts : List String} (hne : parts ≠ [])
    (h : ∀ part ∈ parts, separator ∉ part.toList) :
    split separator (joinWith (String.singleton separator) parts) = parts := by
  induction parts with
  | nil => exact absurd rfl hne
  | cons part parts ih =>
    have hpart : separator ∉ part.toList := h part List.mem_cons_self
    by_cases hparts : parts = []
    · subst hparts
      exact split_of_not_mem hpart
    · have hrest := ih hparts fun other hother => h other (List.mem_cons_of_mem part hother)
      rw [joinWith_cons _ _ hparts, split_append, hrest, split_of_not_mem hpart,
        List.singleton_append]

/-! ### Empty parts -/

theorem nil_mem_splitAt_cases {separator : Char} {cs : List Char}
    (h : [] ∈ splitAt separator cs) :
    cs = [] ∨ (∃ ds, cs = separator :: ds) ∨ [] ∈ (splitAt separator cs).tail := by
  cases cs with
  | nil => exact .inl rfl
  | cons c cs =>
    by_cases hc : c = separator
    · exact .inr (.inl ⟨cs, by rw [hc]⟩)
    · right
      right
      rw [splitAt, if_neg hc] at h ⊢
      split at h
      · simp at h
      · simpa using h

/-- Behind the first part, an empty one ends the text or stands between two separators. -/
theorem shape_of_nil_mem_tail {separator : Char} {cs : List Char}
    (h : [] ∈ (splitAt separator cs).tail) :
    (∃ ds, cs = ds ++ [separator]) ∨ ∃ ds es, cs = ds ++ separator :: separator :: es := by
  induction cs with
  | nil => cases h
  | cons c cs ih =>
    -- What is found behind the first character is found in the whole text.
    have hlater : [] ∈ (splitAt separator cs).tail →
        (∃ ds, c :: cs = ds ++ [separator]) ∨
          ∃ ds es, c :: cs = ds ++ separator :: separator :: es := by
      intro hcs
      rcases ih hcs with ⟨ds, rfl⟩ | ⟨ds, es, rfl⟩
      · exact .inl ⟨c :: ds, rfl⟩
      · exact .inr ⟨c :: ds, es, rfl⟩
    by_cases hc : c = separator
    · subst hc
      rw [splitAt, if_pos rfl, List.tail_cons] at h
      rcases nil_mem_splitAt_cases h with rfl | ⟨ds, rfl⟩ | hcs
      · exact .inl ⟨[], rfl⟩
      · exact .inr ⟨[], ds, rfl⟩
      · exact hlater hcs
    · apply hlater
      rw [splitAt, if_neg hc] at h
      split at h
      · cases h
      · rename_i first rest hparts
        rwa [hparts, List.tail_cons]

theorem nil_mem_splitAt_iff {separator : Char} {cs : List Char} :
    [] ∈ splitAt separator cs ↔
      cs = [] ∨ (∃ ds, cs = separator :: ds) ∨ (∃ ds, cs = ds ++ [separator]) ∨
        ∃ ds es, cs = ds ++ separator :: separator :: es := by
  constructor
  · intro h
    rcases nil_mem_splitAt_cases h with hcs | hcs | htail
    · exact .inl hcs
    · exact .inr (.inl hcs)
    · exact .inr (.inr (shape_of_nil_mem_tail htail))
  · have hfirst (ds : List Char) : [] ∈ splitAt separator (separator :: ds) := by
      simp [splitAt]
    rintro (rfl | ⟨ds, rfl⟩ | ⟨ds, rfl⟩ | ⟨ds, es, rfl⟩)
    · exact List.mem_singleton_self []
    · exact hfirst ds
    · rw [splitAt_append]
      exact List.mem_append_right _ (List.mem_singleton_self [])
    · rw [splitAt_append]
      exact List.mem_append_right _ (hfirst es)

end SchemaAtlas.Text
