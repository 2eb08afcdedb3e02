/-!
# Results of steps that may fail

What a result says about the steps that it was made from, and which element of a list is the one
that a step over the whole list fails at.
-/
namespace SchemaAtlas

variable {ε α β : Type} {x : Except ε α} {b : β}

/-- The form for closed terms, of which only the test is computed. -/
theorem exists_eq_ok_of_isOk (h : x.isOk = true) : ∃ a, x = .ok a := by
  cases x with
  | error e => cases h
  | ok a => exact ⟨a, rfl⟩

theorem exists_of_bind_eq_ok {f : α → Except ε β} (h : x >>= f = .ok b) :
    ∃ a, x = .ok a ∧ f a = .ok b := by
  cases x with
  | error e => cases h
  | ok a => exact ⟨a, rfl, h⟩

theorem eq_error_of_bind_eq_error {f : α → Except ε β} {e : ε} (h : x >>= f = .error e) :
    x = .error e ∨ ∃ a, x = .ok a ∧ f a = .error e := by
  cases x with
  | error other =>
    cases h
    exact .inl rfl
  | ok a => exact .inr ⟨a, rfl, h⟩

theorem exists_of_map_eq_ok {f : α → β} (h : x.map f = .ok b) : ∃ a, x = .ok a ∧ f a = b := by
  cases x with
  | error e => cases h
  | ok a => exact ⟨a, rfl, Except.ok.inj h⟩

theorem eq_error_of_map_eq_error {f : α → β} {e : ε} (h : x.map f = .error e) : x = .error e := by
  cases x with
  | error other => exact congrArg _ (Except.error.inj h)
  | ok a => cases h

theorem eq_ok_of_mapError_eq_ok {ε' : Type} {f : ε → ε'} {a : α} (h : x.mapError f = .ok a) :
    x = .ok a := by
  cases x with
  | error e => cases h
  | ok other => exact congrArg _ (Except.ok.inj h)

theorem exists_of_mapError_eq_error {ε' : Type} {f : ε → ε'} {e : ε'}
    (h : x.mapError f = .error e) : ∃ fault, x = .error fault ∧ f fault = e := by
  cases x with
  | error fault => exact ⟨fault, rfl, Except.error.inj h⟩
  | ok a => cases h

/-- Two results are the same error, or none of them is an error. -/
def SameErrors {γ : Type} (x : Except ε α) (y : Except ε γ) : Prop :=
  ∀ e, x = .error e ↔ y = .error e

section SameErrors

variable {γ δ : Type} {y : Except ε γ}

theorem sameErrors_ok (a : α) (c : γ) : SameErrors (.ok a : Except ε α) (.ok c : Except ε γ) :=
  fun _ => ⟨nofun, nofun⟩

theorem sameErrors_error (e : ε) : SameErrors (.error e : Except ε α) (.error e : Except ε γ) :=
  fun _ => ⟨fun h => congrArg _ (Except.error.inj h), fun h => congrArg _ (Except.error.inj h)⟩

theorem SameErrors.bind {f : α → Except ε β} {g : γ → Except ε δ} (h : SameErrors x y)
    (hf : ∀ a c, SameErrors (f a) (g c)) : SameErrors (x >>= f) (y >>= g) := by
  cases x with
  | error e =>
    rw [(h e).1 rfl]
    exact sameErrors_error e
  | ok a =>
    cases y with
    | error e => cases (h e).2 rfl
    | ok c => exact hf a c

theorem SameErrors.trans {z : Except ε δ} (h : SameErrors x y) (h' : SameErrors y z) :
    SameErrors x z :=
  fun e => (h e).trans (h' e)

/-- Only a step that cannot fail comes behind. -/
theorem sameErrors_bind_pure (x : Except ε α) (f : α → β) :
    SameErrors (x >>= fun a => pure (f a)) x := by
  cases x with
  | error e => exact sameErrors_error e
  | ok a => exact sameErrors_ok (f a) a

end SameErrors

/-- The first element of a list that satisfies a condition. -/
def FirstWith (P : α → Prop) (l : List α) (a : α) : Prop :=
  ∃ before after, l = before ++ a :: after ∧ (∀ b ∈ before, ¬ P b) ∧ P a

theorem FirstWith.pos {P : α → Prop} {l : List α} {a : α} (h : FirstWith P l a) : P a := by
  obtain ⟨-, -, -, -, ha⟩ := h
  exact ha

theorem FirstWith.mem {P : α → Prop} {l : List α} {a : α} (h : FirstWith P l a) : a ∈ l := by
  obtain ⟨before, after, rfl, -⟩ := h
  exact List.mem_append_right before List.mem_cons_self

theorem not_firstWith_nil {P : α → Prop} {a : α} : ¬ FirstWith P [] a := by
  rintro ⟨before, after, h, -⟩
  cases before <;> cases h

theorem firstWith_cons_of_pos {P : α → Prop} {a : α} (l : List α) (h : P a) {x : α} :
    FirstWith P (a :: l) x ↔ x = a := by
  constructor
  · rintro ⟨before, after, hl, hbefore, -⟩
    cases before with
    | nil => exact (List.cons.inj hl).1.symm
    | cons b before =>
      obtain rfl := (List.cons.inj hl).1
      exact absurd h (hbefore a List.mem_cons_self)
  · rintro rfl
    exact ⟨[], l, rfl, nofun, h⟩

theorem firstWith_cons_of_neg {P : α → Prop} {a : α} {l : List α} (h : ¬ P a) {x : α} :
    FirstWith P (a :: l) x ↔ FirstWith P l x := by
  constructor
  · rintro ⟨before, after, hl, hbefore, hx⟩
    cases before with
    | nil =>
      obtain rfl := (List.cons.inj hl).1
      exact absurd hx h
    | cons b before =>
      exact ⟨before, after, (List.cons.inj hl).2,
        fun c hc => hbefore c (List.mem_cons_of_mem b hc), hx⟩
  · rintro ⟨before, after, rfl, hbefore, hx⟩
    refine ⟨a :: before, after, rfl, fun c hc => ?_, hx⟩
    rcases List.mem_cons.1 hc with rfl | hc
    · exact h
    · exact hbefore c hc

theorem exists_firstWith_iff {P : α → Prop} {l : List α} :
    (∃ a, FirstWith P l a) ↔ ∃ a ∈ l, P a := by
  constructor
  · rintro ⟨a, h⟩
    exact ⟨a, h.mem, h.pos⟩
  · rintro ⟨a, hmem, h⟩
    induction l with
    | nil => cases hmem
    | cons b l ih =>
      by_cases hb : P b
      · exact ⟨b, (firstWith_cons_of_pos l hb).2 rfl⟩
      · have hlater : a ∈ l := (List.mem_cons.1 hmem).resolve_left fun hsame => hb (hsame ▸ h)
        obtain ⟨x, hx⟩ := ih hlater
        exact ⟨x, (firstWith_cons_of_neg hb).2 hx⟩

/-- A step over a list fails as it does at the first element that it fails at. -/
theorem mapM_eq_error_iff {f : α → Except ε β} {l : List α} {e : ε} :
    l.mapM f = .error e ↔ ∃ a, FirstWith (fun a => ∃ e, f a = .error e) l a ∧ f a = .error e := by
  induction l with
  | nil =>
    constructor
    · exact nofun
    · rintro ⟨a, ha, -⟩
      exact absurd ha not_firstWith_nil
  | cons a l ih =>
    rw [List.mapM_cons]
    cases ha : f a with
    | error fault =>
      have hfirst (x : α) : FirstWith (fun a => ∃ e, f a = .error e) (a :: l) x ↔ x = a :=
        firstWith_cons_of_pos l ⟨fault, ha⟩
      simp only [hfirst, exists_eq_left, ha]
      exact sameErrors_error fault e
    | ok b =>
      have hfirst (x : α) : FirstWith (fun a => ∃ e, f a = .error e) (a :: l) x ↔
          FirstWith (fun a => ∃ e, f a = .error e) l x := by
        refine firstWith_cons_of_neg ?_
        rintro ⟨e, he⟩
        cases ha.symm.trans he
      simp only [hfirst, ← ih]
      exact sameErrors_bind_pure (l.mapM f) (b :: ·) e

/-- A step over a list succeeds at each of its elements, and the results are those of elements. -/
theorem forall_of_mapM_eq_ok {f : α → Except ε β} {l : List α} {bs : List β}
    (h : l.mapM f = .ok bs) :
    (∀ a ∈ l, ∃ b, f a = .ok b) ∧ ∀ b ∈ bs, ∃ a ∈ l, f a = .ok b := by
  induction l generalizing bs with
  | nil =>
    cases h
    exact ⟨nofun, nofun⟩
  | cons a l ih =>
    rw [List.mapM_cons] at h
    obtain ⟨b, hb, h⟩ := exists_of_bind_eq_ok h
    obtain ⟨rest, hrest, h⟩ := exists_of_bind_eq_ok h
    obtain ⟨hl, hbs⟩ := ih hrest
    cases h
    refine ⟨List.forall_mem_cons.2 ⟨⟨b, hb⟩, hl⟩, List.forall_mem_cons.2 ⟨?_, fun c hc => ?_⟩⟩
    · exact ⟨a, List.mem_cons_self, hb⟩
    · obtain ⟨x, hx, hc⟩ := hbs c hc
      exact ⟨x, List.mem_cons_of_mem a hx, hc⟩

/-- Steps that succeed one by one succeed over a list. -/
theorem mapM_map_eq_ok {γ : Type} {h : γ → α} {f : α → Except ε β} {g : γ → β}
    (hf : ∀ c, f (h c) = .ok (g c)) (l : List γ) : (l.map h).mapM f = .ok (l.map g) := by
  induction l with
  | nil => rfl
  | cons c l ih =>
    rw [List.map_cons, List.mapM_cons, hf, ih]
    rfl

end SchemaAtlas
