import SchemaAtlas.Store.Lookup

/-!
# Runs of actions

An action is started with a journal, gives a result or fails, and leaves another journal. A sequence
of actions gives a result exactly if each of its steps does, and fails where the first of them fails.
What an action has asked of the client is read off the two journals.
-/
namespace SchemaAtlas.Action

variable {Handle α β : Type} {before between after : Journal Handle}

/-- Started with the one journal, the action gives the result and leaves the other journal. -/
def Returns (x : Action Handle α) (before : Journal Handle) (a : α) (after : Journal Handle) :
    Prop :=
  x.run.run before = (.ok a, after)

/-- Started with the one journal, the action fails and leaves the other journal. -/
def Fails (x : Action Handle α) (before : Journal Handle) (e : Fault) (after : Journal Handle) :
    Prop :=
  x.run.run before = (.error e, after)

theorem returns_iff_of_run {x : Action Handle α} {a b : α} {journal : Journal Handle}
    (hx : x.run.run before = (.ok a, journal)) :
    x.Returns before b after ↔ b = a ∧ after = journal := by
  rw [Returns, hx, Prod.mk.injEq, Except.ok.injEq, eq_comm, @eq_comm _ after]

theorem returns_pure_iff {a b : α} :
    Returns (pure a : Action Handle α) before b after ↔ b = a ∧ after = before :=
  returns_iff_of_run rfl

theorem not_returns_throw {e : Fault} {a : α} :
    ¬ Returns (throw e : Action Handle α) before a after :=
  fun h => nomatch (Prod.mk.inj h).1

theorem returns_bind_iff {x : Action Handle α} {f : α → Action Handle β} {b : β} :
    (x >>= f).Returns before b after ↔
      ∃ a between, x.Returns before a between ∧ (f a).Returns between b after := by
  unfold Returns
  rw [ExceptT.run_bind, StateT.run_bind]
  cases hx : x.run.run before with
  | mk result between =>
    cases result with
    | error e =>
      constructor
      · intro h
        exact nomatch (Prod.mk.inj h).1
      · intro h
        obtain ⟨a, other, ha, -⟩ := h
        exact nomatch (Prod.mk.inj ha).1
    | ok a =>
      constructor
      · intro h
        exact ⟨a, between, rfl, h⟩
      · intro h
        obtain ⟨other, middle, hother, h⟩ := h
        obtain ⟨hresult, rfl⟩ := Prod.mk.inj hother
        obtain rfl := Except.ok.inj hresult
        exact h

theorem returns_report_iff {entries : List LogEntry} {a : Unit} :
    (report entries).Returns before a after ↔
      after = ⟨before.requests, before.entries ++ entries⟩ := by
  have hrun : (report entries).run.run before =
      (.ok (), ⟨before.requests, before.entries ++ entries⟩) := rfl
  rw [returns_iff_of_run hrun, and_iff_right rfl]

/-- A report changes nothing but the entries for what comes after it. -/
theorem returns_report_bind_iff {entries : List LogEntry} {f : Unit → Action Handle β} {b : β} :
    (report entries >>= f).Returns before b after ↔
      (f ()).Returns ⟨before.requests, before.entries ++ entries⟩ b after := by
  rw [returns_bind_iff]
  simp only [returns_report_iff]
  constructor
  · rintro ⟨_, _, rfl, h⟩
    exact h
  · exact fun h => ⟨(), _, rfl, h⟩

theorem returns_lift_iff {ε : Type} {wrap : ε → Fault} {result : Except ε α} {a : α} :
    Returns (lift wrap result : Action Handle α) before a after ↔
      result = .ok a ∧ after = before := by
  cases result with
  | ok b =>
    rw [lift, returns_pure_iff, Except.ok.injEq, eq_comm]
  | error e =>
    refine ⟨fun h => absurd h not_returns_throw, fun h => ?_⟩
    cases h.1

theorem returns_requestChild_iff {client : Client Handle} {parent : Option Handle} {kind : NodeKind}
    {name : Option String} {handle : Handle} :
    (requestChild client parent kind name).Returns before handle after ↔
      handle = client.child before.requests parent kind name ∧
        after = ⟨before.requests ++ [.child parent kind name], before.entries⟩ :=
  returns_iff_of_run rfl

theorem returns_requestChildren_iff {client : Client Handle} {parent : Option Handle}
    {names : List String} :
    (requestChildren client parent).Returns before names after ↔
      names = client.children before.requests parent ∧
        after = ⟨before.requests ++ [.children parent], before.entries⟩ :=
  returns_iff_of_run rfl

/-- Started with the journal, the action gives the result, and these are all requests since then and
before. -/
def Obtains (x : Action Handle α) (before : Journal Handle) (a : α)
    (requests : List (Request Handle)) : Prop :=
  ∃ entries, x.Returns before a ⟨requests, entries⟩

theorem obtains_pure_iff {a b : α} {requests : List (Request Handle)} :
    Obtains (pure a : Action Handle α) before b requests ↔ b = a ∧ requests = before.requests := by
  simp only [Obtains, returns_pure_iff]
  constructor
  · intro h
    obtain ⟨entries, hb, rfl⟩ := h
    exact ⟨hb, rfl⟩
  · intro h
    obtain ⟨hb, rfl⟩ := h
    exact ⟨before.entries, hb, rfl⟩

theorem obtains_bind_iff {x : Action Handle α} {f : α → Action Handle β} {b : β}
    {requests : List (Request Handle)} :
    (x >>= f).Obtains before b requests ↔
      ∃ a between, x.Returns before a between ∧ (f a).Obtains between b requests := by
  simp only [Obtains, returns_bind_iff]
  constructor
  · rintro ⟨entries, a, between, hx, hf⟩
    exact ⟨a, between, hx, entries, hf⟩
  · rintro ⟨a, between, hx, entries, hf⟩
    exact ⟨entries, a, between, hx, hf⟩

/-! ### Failures -/

theorem not_fails_of_run {x : Action Handle α} {e : Fault} {a : α} {journal : Journal Handle}
    (hx : x.run.run before = (.ok a, journal)) : ¬ x.Fails before e after := by
  intro h
  cases (Prod.mk.inj (hx.symm.trans h)).1

theorem fails_throw_iff {e fault : Fault} :
    Fails (throw e : Action Handle α) before fault after ↔ fault = e ∧ after = before := by
  constructor
  · intro h
    obtain ⟨he, hafter⟩ := Prod.mk.inj h
    exact ⟨(Except.error.inj he).symm, hafter.symm⟩
  · rintro ⟨rfl, rfl⟩
    rfl

theorem fails_bind_iff {x : Action Handle α} {f : α → Action Handle β} {e : Fault} :
    (x >>= f).Fails before e after ↔
      x.Fails before e after ∨
        ∃ a between, x.Returns before a between ∧ (f a).Fails between e after := by
  unfold Fails Returns
  rw [ExceptT.run_bind, StateT.run_bind]
  cases hx : x.run.run before with
  | mk result between =>
    cases result with
    | error fault =>
      constructor
      · intro h
        obtain ⟨he, rfl⟩ := Prod.mk.inj h
        obtain rfl := Except.error.inj he
        exact .inl rfl
      · rintro (h | ⟨a, other, ha, -⟩)
        · obtain ⟨he, rfl⟩ := Prod.mk.inj h
          obtain rfl := Except.error.inj he
          rfl
        · cases (Prod.mk.inj ha).1
    | ok a =>
      constructor
      · exact fun h => .inr ⟨a, between, rfl, h⟩
      · rintro (h | ⟨other, middle, hother, h⟩)
        · cases (Prod.mk.inj h).1
        · obtain ⟨hresult, rfl⟩ := Prod.mk.inj hother
          obtain rfl := Except.ok.inj hresult
          exact h

end SchemaAtlas.Action
