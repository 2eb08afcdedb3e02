/-!
# Ordered and distinct lists

Sorting by insertion, and lists without repetition under an equality that need not be the built-in
one. Where two elements count as equal the one met first stays.
-/
namespace SchemaAtlas

/-- Puts an element behind every element that is not greater. -/
def insertOrdered (le : α → α → Bool) (x : α) : List α → List α
  | [] => [x]
  | y :: ys => if le y x then y :: insertOrdered le x ys else x :: y :: ys

/-- The elements in ascending order; elements that compare equal keep their order. -/
def sortBy (le : α → α → Bool) (xs : List α) : List α :=
  xs.foldl (fun sorted x => insertOrdered le x sorted) []

/-- Texts in ascending order of their code points. -/
def sortTexts (texts : List String) : List String :=
  sortBy (fun a b => decide (a ≤ b)) texts

/-- Adds an element behind all others unless an equal one is there. -/
def addDistinct (same : α → α → Bool) (xs : List α) (x : α) : List α :=
  if xs.any (same · x) then xs else xs ++ [x]

/-- The elements without repetition, in the order in which they are first met. -/
def distinctBy (same : α → α → Bool) (xs : List α) : List α :=
  xs.foldl (addDistinct same) []

/-- Puts a text at its place among distinct ascending texts, unless it is there already. -/
def insertText (text : String) : List String → List String
  | [] => [text]
  | other :: rest =>
    if text = other then other :: rest
    else if text < other then text :: other :: rest
    else other :: insertText text rest

/-- Texts in ascending order without repetition. -/
def sortedDistinct (texts : List String) : List String :=
  texts.foldl (fun sorted text => insertText text sorted) []

/-- Lexicographic order of lists under an order of their elements. -/
def listLe (le : α → α → Bool) (same : α → α → Bool) : List α → List α → Bool
  | [], _ => true
  | _ :: _, [] => false
  | x :: xs, y :: ys => if same x y then listLe le same xs ys else le x y

theorem insertOrdered_perm (le : α → α → Bool) (x : α) (xs : List α) :
    (insertOrdered le x xs).Perm (x :: xs) := by
  induction xs with
  | nil => exact .refl _
  | cons y ys ih =>
    rw [insertOrdered]
    split
    · exact (ih.cons y).trans (.swap x y ys)
    · exact .refl _

/-- Sorting loses nothing and adds nothing. -/
theorem sortBy_perm (le : α → α → Bool) (xs : List α) : (sortBy le xs).Perm xs := by
  have hfold : ∀ sorted : List α,
      (xs.foldl (fun sorted x => insertOrdered le x sorted) sorted).Perm (sorted ++ xs) := by
    induction xs with
    | nil =>
      intro sorted
      rw [List.append_nil]
      exact .refl _
    | cons x xs ih =>
      intro sorted
      have hinsert := (insertOrdered_perm le x sorted).append_right xs
      exact (ih _).trans (hinsert.trans List.perm_middle.symm)
  exact hfold []

theorem insertOrdered_map (f : α → β) (le : β → β → Bool) (x : α) (xs : List α) :
    insertOrdered le (f x) (xs.map f) = (insertOrdered (fun a b => le (f a) (f b)) x xs).map f := by
  induction xs with
  | nil => rfl
  | cons y ys ih =>
    rw [List.map_cons, insertOrdered, insertOrdered]
    split
    · rw [ih, List.map_cons]
    · rfl

/-- Images are in the order of their elements under the order of the images. -/
theorem sortBy_map (f : α → β) (le : β → β → Bool) (xs : List α) :
    sortBy le (xs.map f) = (sortBy (fun a b => le (f a) (f b)) xs).map f := by
  have hfold : ∀ sorted : List α,
      (xs.map f).foldl (fun sorted x => insertOrdered le x sorted) (sorted.map f) =
        (xs.foldl (fun sorted x => insertOrdered (fun a b => le (f a) (f b)) x sorted)
          sorted).map f := by
    induction xs with
    | nil => exact fun sorted => rfl
    | cons x xs ih =>
      intro sorted
      rw [List.map_cons, List.foldl_cons, List.foldl_cons, insertOrdered_map, ih]
  exact hfold []

section Order

variable {le : α → α → Bool}

theorem pairwise_insertOrdered (htotal : ∀ x y, le x y = true ∨ le y x = true)
    (htrans : ∀ x y z, le x y = true → le y z = true → le x z = true) (x : α) {xs : List α}
    (h : xs.Pairwise fun a b => le a b = true) :
    (insertOrdered le x xs).Pairwise fun a b => le a b = true := by
  induction xs with
  | nil => exact List.pairwise_singleton _ x
  | cons y ys ih =>
    obtain ⟨hy, hys⟩ := List.pairwise_cons.1 h
    rw [insertOrdered]
    split
    · rename_i hyx
      refine List.pairwise_cons.2 ⟨fun z hz => ?_, ih hys⟩
      rcases List.mem_cons.1 ((insertOrdered_perm le x ys).mem_iff.1 hz) with rfl | hz
      · exact hyx
      · exact hy z hz
    · rename_i hyx
      have hxy : le x y = true := (htotal x y).resolve_right hyx
      refine List.pairwise_cons.2 ⟨fun z hz => ?_, h⟩
      rcases List.mem_cons.1 hz with rfl | hz
      · exact hxy
      · exact htrans x y z hxy (hy z hz)

theorem pairwise_sortBy (htotal : ∀ x y, le x y = true ∨ le y x = true)
    (htrans : ∀ x y z, le x y = true → le y z = true → le x z = true) (xs : List α) :
    (sortBy le xs).Pairwise fun a b => le a b = true := by
  have hfold : ∀ sorted : List α, (sorted.Pairwise fun a b => le a b = true) →
      (xs.foldl (fun sorted x => insertOrdered le x sorted) sorted).Pairwise
        fun a b => le a b = true := by
    induction xs with
    | nil => exact fun sorted h => h
    | cons x xs ih => exact fun sorted h => ih _ (pairwise_insertOrdered htotal htrans x h)
  exact hfold [] .nil

/-- Where no two elements are at one place of the order, only which elements there are matters. -/
theorem sortBy_eq_of_perm (htotal : ∀ x y, le x y = true ∨ le y x = true)
    (htrans : ∀ x y z, le x y = true → le y z = true → le x z = true) {xs ys : List α}
    (hantisymm : ∀ x ∈ xs, ∀ y ∈ xs, le x y = true → le y x = true → x = y) (h : xs.Perm ys) :
    sortBy le xs = sortBy le ys := by
  have hperm : (sortBy le xs).Perm (sortBy le ys) :=
    (sortBy_perm le xs).trans (h.trans (sortBy_perm le ys).symm)
  refine hperm.eq_of_pairwise (fun x y hx hy => ?_) (pairwise_sortBy htotal htrans xs)
    (pairwise_sortBy htotal htrans ys)
  have hy' := h.mem_iff.2 ((sortBy_perm le ys).mem_iff.1 hy)
  exact hantisymm x ((sortBy_perm le xs).mem_iff.1 hx) y hy'

end Order

theorem mem_insertText {text other : String} {texts : List String} :
    other ∈ insertText text texts ↔ other = text ∨ other ∈ texts := by
  induction texts with
  | nil => rw [insertText, List.mem_singleton, or_iff_left List.not_mem_nil]
  | cons head rest ih =>
    rw [insertText]
    split
    · rename_i heq
      subst heq
      rw [List.mem_cons, or_self_left]
    · split
      · rw [List.mem_cons]
      · rw [List.mem_cons, List.mem_cons, ih, or_left_comm]

theorem mem_foldl_insertText {texts sorted : List String} {text : String} :
    text ∈ texts.foldl (fun sorted text => insertText text sorted) sorted ↔
      text ∈ sorted ∨ text ∈ texts := by
  induction texts generalizing sorted with
  | nil => rw [List.foldl_nil, or_iff_left List.not_mem_nil]
  | cons head rest ih =>
    rw [List.foldl_cons, ih, mem_insertText, List.mem_cons, or_assoc, or_left_comm]

theorem mem_sortedDistinct {texts : List String} {text : String} :
    text ∈ sortedDistinct texts ↔ text ∈ texts :=
  mem_foldl_insertText.trans (or_iff_right List.not_mem_nil)

/-- A text put at its place keeps the order strict. -/
theorem pairwise_insertText (text : String) {texts : List String} (h : texts.Pairwise (· < ·)) :
    (insertText text texts).Pairwise (· < ·) := by
  induction texts with
  | nil => exact List.pairwise_singleton _ text
  | cons head rest ih =>
    obtain ⟨hhead, hrest⟩ := List.pairwise_cons.1 h
    rw [insertText]
    split
    · exact h
    · rename_i hne
      split
      · rename_i hlt
        refine List.pairwise_cons.2 ⟨fun other hother => ?_, h⟩
        rcases List.mem_cons.1 hother with rfl | hother
        · exact hlt
        · exact String.lt_trans hlt (hhead other hother)
      · rename_i hge
        have hlt : head < text :=
          String.not_le.1 fun hle => hne (String.le_antisymm hle (String.not_lt.1 hge))
        refine List.pairwise_cons.2 ⟨fun other hother => ?_, ih hrest⟩
        rcases mem_insertText.1 hother with rfl | hother
        · exact hlt
        · exact hhead other hother

theorem pairwise_foldl_insertText (texts : List String) {sorted : List String}
    (h : sorted.Pairwise (· < ·)) :
    (texts.foldl (fun sorted text => insertText text sorted) sorted).Pairwise (· < ·) := by
  induction texts generalizing sorted with
  | nil => exact h
  | cons head rest ih => exact ih (pairwise_insertText head h)

theorem pairwise_sortedDistinct (texts : List String) :
    (sortedDistinct texts).Pairwise (· < ·) :=
  pairwise_foldl_insertText texts .nil

theorem mem_addDistinct {same : α → α → Bool} {xs : List α} {x y : α}
    (h : y ∈ addDistinct same xs x) : y ∈ xs ∨ y = x := by
  unfold addDistinct at h
  split at h
  · exact .inl h
  · simpa using h

theorem mem_addDistinct_of_mem {same : α → α → Bool} {xs : List α} {y : α} (h : y ∈ xs) (x : α) :
    y ∈ addDistinct same xs x := by
  unfold addDistinct
  split
  · exact h
  · exact List.mem_append_left _ h

theorem mem_of_mem_distinctBy {same : α → α → Bool} {xs : List α} {y : α}
    (h : y ∈ distinctBy same xs) : y ∈ xs := by
  have hfold : ∀ (seen : List α), y ∈ xs.foldl (addDistinct same) seen → y ∈ seen ∨ y ∈ xs := by
    clear h
    induction xs with
    | nil => exact fun seen h => .inl h
    | cons x xs ih =>
      intro seen h
      rcases ih _ h with h | h
      · rcases mem_addDistinct h with h | rfl
        · exact .inl h
        · exact .inr List.mem_cons_self
      · exact .inr (List.mem_cons_of_mem _ h)
  exact (hfold [] h).resolve_left List.not_mem_nil

/-- No element is lost: one that counts as equal to it stays. -/
theorem exists_mem_distinctBy {same : α → α → Bool} (hrefl : ∀ x, same x x = true) {xs : List α}
    {x : α} (hx : x ∈ xs) : ∃ y ∈ distinctBy same xs, same y x = true := by
  have hkeeps : ∀ (ys seen : List α), (∃ y ∈ seen, same y x = true) →
      ∃ y ∈ ys.foldl (addDistinct same) seen, same y x = true := by
    intro ys
    induction ys with
    | nil => exact fun seen h => h
    | cons z ys ih =>
      intro seen h
      obtain ⟨y, hy, hyx⟩ := h
      exact ih _ ⟨y, mem_addDistinct_of_mem hy z, hyx⟩
  have hadded : ∀ seen : List α, ∃ y ∈ addDistinct same seen x, same y x = true := by
    intro seen
    unfold addDistinct
    split
    · rename_i hany
      exact List.any_eq_true.1 hany
    · exact ⟨x, List.mem_append_right _ (List.mem_singleton.2 rfl), hrefl x⟩
  obtain ⟨before, after, rfl⟩ := List.append_of_mem hx
  rw [distinctBy, List.foldl_append, List.foldl_cons]
  exact hkeeps after _ (hadded _)

theorem pairwise_distinctBy (same : α → α → Bool) (xs : List α) :
    (distinctBy same xs).Pairwise fun a b => same a b = false := by
  have hfold : ∀ seen : List α, (seen.Pairwise fun a b => same a b = false) →
      (xs.foldl (addDistinct same) seen).Pairwise fun a b => same a b = false := by
    induction xs with
    | nil => exact fun seen h => h
    | cons x xs ih =>
      intro seen h
      refine ih _ ?_
      unfold addDistinct
      split
      · exact h
      · rename_i hnew
        refine List.pairwise_append.2 ⟨h, List.pairwise_singleton _ x, fun a ha b hb => ?_⟩
        rw [List.mem_singleton.1 hb, ← Bool.not_eq_true]
        exact fun hsame => hnew (List.any_eq_true.2 ⟨a, ha, hsame⟩)
  exact hfold [] .nil

/-- Where no two elements count as equal, all of them stay. -/
theorem distinctBy_eq_self {same : α → α → Bool} {xs : List α}
    (h : xs.Pairwise fun a b => same a b = false) : distinctBy same xs = xs := by
  have hfold : ∀ seen : List α, ((seen ++ xs).Pairwise fun a b => same a b = false) →
      xs.foldl (addDistinct same) seen = seen ++ xs := by
    clear h
    induction xs with
    | nil => exact fun seen _ => (List.append_nil seen).symm
    | cons x xs ih =>
      intro seen h
      have hnew : seen.any (same · x) = false := by
        refine List.any_eq_false.2 fun a ha => ?_
        rw [(List.pairwise_append.1 h).2.2 a ha x List.mem_cons_self]
        exact Bool.false_ne_true
      rw [List.append_cons] at h
      rw [List.foldl_cons, addDistinct, hnew, if_neg Bool.false_ne_true, ih _ h, ← List.append_cons]
  exact hfold [] h

theorem mem_of_lookup [BEq α] [LawfulBEq α] {key : α} {value : β} {entries : List (α × β)}
    (h : entries.lookup key = some value) : (key, value) ∈ entries := by
  obtain ⟨before, after, rfl, _⟩ := List.lookup_eq_some_iff.1 h
  exact List.mem_append_right before List.mem_cons_self

theorem lookup_eq_none_iff_not_mem [BEq α] [LawfulBEq α] {key : α} {entries : List (α × β)} :
    entries.lookup key = none ↔ key ∉ entries.map (·.1) := by
  rw [List.lookup_eq_none_iff, List.mem_map]
  constructor
  · intro h hkey
    obtain ⟨entry, hentry, rfl⟩ := hkey
    exact absurd rfl (bne_iff_ne.1 (h entry hentry))
  · intro h entry hentry
    exact bne_iff_ne.2 fun heq => h ⟨entry, hentry, heq.symm⟩

/-- Among distinct keys an entry is found under its key. -/
theorem lookup_of_mem [BEq α] [LawfulBEq α] {key : α} {value : β} {entries : List (α × β)}
    (hdistinct : (entries.map (·.1)).Nodup) (h : (key, value) ∈ entries) :
    entries.lookup key = some value := by
  obtain ⟨before, after, rfl⟩ := List.append_of_mem h
  refine List.lookup_eq_some_iff.2 ⟨before, after, rfl, fun entry hentry => ?_⟩
  rw [List.map_append, List.map_cons, List.nodup_append] at hdistinct
  have hne := hdistinct.2.2 entry.1 (List.mem_map_of_mem hentry) key List.mem_cons_self
  exact bne_iff_ne.2 (Ne.symm hne)

end SchemaAtlas
