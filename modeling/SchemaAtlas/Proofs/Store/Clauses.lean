import Mathlib.Data.List.Induction
import SchemaAtlas.Proofs.Query.Projection
import SchemaAtlas.Proofs.Store.Opening

/-!
# Clauses of queries

A query keeps its predicates and its last selection, and transforms its schemas with every clause. The
schemas are those that the predicates and the last selection leave of the schemas that the query
started from, as long as no clause behind a selection needs what the selection dropped: a selection
forgets the fields that it does not name and the schemas that were filtered out.
-/
namespace SchemaAtlas

variable {Handle : Type}

/-! ### Clauses -/

/-- A call that refines a query. -/
inductive Clause
  | filter (field symbol value : Value)
  | select (fields : List Value)

namespace Clause

/-- The operator is known, the type of the value is finite and the selected fields can be names. -/
def Valid : Clause → Prop
  | filter field symbol value => ∃ p, Predicate.ofSymbol field symbol value = .ok p
  | select fields => Value.allHashable fields = true

/-- The predicate that a clause records. -/
def predicate? : Clause → Option Predicate
  | filter field symbol value => (Predicate.ofSymbol field symbol value).toOption
  | select _ => none

/-- The selection that a clause records. -/
def selection? : Clause → Option (List Value)
  | filter _ _ _ => none
  | select fields => some fields

/--
Schemas made from the ones that a query started from still tell what a clause needs: they can be
filtered, and they declare its fields if the ones they come from do.
-/
def Needs (start u : SchemaUnion) : Clause → Prop
  | filter field _ _ =>
    u.isGeneric = true ∨ u.isUnfilterable = false ∧ (start.Declares field → u.Declares field)
  | select fields =>
    u.isUnfilterable = false ∧ ∀ field ∈ fields, start.DeclaresName field → u.DeclaresName field

/-- No field path in the clause could be taken for the name of one field. -/
def StepsInto (start : SchemaUnion) : Clause → Prop
  | filter field _ _ =>
    ∀ path, field = .text path → ∀ s ∈ start.declaredSchemas, s.StepsInto path
  | select _ => True

end Clause

namespace QueryHandle

/-- The query with one more clause. -/
def refine (q : QueryHandle Handle) : Clause → Action Handle (QueryHandle Handle)
  | .filter field symbol value => q.filterBy field symbol value
  | .select fields => q.select fields

/-- The query with more clauses, one after the other. -/
def build (q : QueryHandle Handle) (clauses : List Clause) : Action Handle (QueryHandle Handle) :=
  clauses.foldlM refine q

/--
Every clause behind a selection finds what it needs, unless the predicates before it already left
nothing that could be filtered.
-/
def Heeds (q : QueryHandle Handle) (clauses : List Clause) : Prop :=
  ∀ earlier clause later, clauses = earlier ++ clause :: later →
    ∀ before r after, (q.build earlier).Returns before r after → r.selected ≠ none →
      ∀ narrowed, q.schemas.narrowAll r.predicates = .ok narrowed →
        narrowed.isUnfilterable = false → clause.Needs q.schemas r.schemas

/-- Behind a selection no field path could be taken for the name of one field. -/
def StepsInto (q : QueryHandle Handle) (clauses : List Clause) : Prop :=
  ∀ earlier clause later, clauses = earlier ++ clause :: later →
    (∃ fields, Clause.select fields ∈ earlier) → clause.StepsInto q.schemas

/-! ### What a query keeps of its clauses -/

/--
How the schemas of a query follow from what its predicates leave and from its last selection: where
that selection says something, they are a restriction or any shape.
-/
inductive Follows (narrowed : SchemaUnion) (r : QueryHandle Handle) : Prop
  | unselected (hselected : r.selected = none) (h : r.schemas = narrowed)
  | unfilterable {fields : List Value} (hselected : r.selected = some fields)
    (hnarrowed : narrowed.isUnfilterable = true) (h : r.schemas = narrowed)
  | widened {fields : List Value} (hselected : r.selected = some fields)
    (hnarrowed : narrowed.isUnfilterable = false)
    (hfields : narrowed.declaredSelection? fields = none) (h : r.schemas = .generic)
  | restricted {fields : List Value} {names : List String} (hselected : r.selected = some fields)
    (hnarrowed : narrowed.isUnfilterable = false)
    (hfields : narrowed.declaredSelection? fields = some names)
    (h : r.schemas.RestrictionOf narrowed names)

namespace Follows

variable {start narrowed : SchemaUnion} {r : QueryHandle Handle}

theorem eq_of_unselected (hf : Follows narrowed r) (hselected : r.selected = none) :
    r.schemas = narrowed := by
  cases hf with
  | unselected _ h => exact h
  | unfilterable hsome => cases hsome.symm.trans hselected
  | widened hsome => cases hsome.symm.trans hselected
  | restricted hsome => cases hsome.symm.trans hselected

theorem agrees (hf : Follows narrowed r) (hr : r.schemas.Reachable) (hnarrowed : narrowed.Reachable)
    {fields : List Value} (hfields : r.selected = some fields) :
    r.schemas.Agrees (narrowed.select fields) := by
  cases hf with
  | unselected hselected h => cases hselected.symm.trans hfields
  | unfilterable hselected hu h =>
    rw [SchemaUnion.select_of_unfilterable hu, h]
    exact .refl narrowed
  | widened hselected hu hnone h =>
    obtain rfl := Option.some.inj (hselected.symm.trans hfields)
    rw [SchemaUnion.select_of_none hu hnone, h]
    exact .refl _
  | restricted hselected hu hsome h =>
    obtain rfl := Option.some.inj (hselected.symm.trans hfields)
    rw [SchemaUnion.select_of_some hu hsome]
    exact h.agrees hr hnarrowed (SchemaUnion.eq_false_of_isUnfilterable_eq_false hu)

/-- Narrowing the schemas keeps them in step with the recorded predicates. -/
theorem narrow (hf : Follows narrowed r) (hnarrowed : narrowed.Reachable)
    (hdeclared : narrowed.isGeneric = false → narrowed.declaredSchemas = start.declaredSchemas)
    {p : Predicate} (he : p.Evaluable) {symbol value : Value}
    (hsteps : r.selected ≠ none → (Clause.filter p.field symbol value).StepsInto start)
    (hneeds : r.selected ≠ none → narrowed.isUnfilterable = false →
      (Clause.filter p.field symbol value).Needs start r.schemas)
    {u w : SchemaUnion} (hu : r.schemas.narrow p = .ok u) (hw : narrowed.narrow p = .ok w) :
    Follows w ⟨r.handle, u, r.predicates ++ [p], r.selected⟩ := by
  cases hf with
  | unselected hselected h =>
    rw [h, hw] at hu
    exact .unselected hselected (Except.ok.inj hu).symm
  | unfilterable hselected hunfilterable h =>
    rw [h, hw] at hu
    rw [SchemaUnion.narrow_of_unfilterable hunfilterable] at hw
    obtain rfl := Except.ok.inj hw
    exact .unfilterable hselected hunfilterable (Except.ok.inj hu).symm
  | widened hselected hfilterable hnone h =>
    rw [h, SchemaUnion.narrow_of_unfilterable rfl] at hu
    obtain rfl := Except.ok.inj hu
    by_cases hp : narrowed.Declares p.field
    · rw [SchemaUnion.narrow_of_declares hfilterable he hp] at hw
      obtain rfl := Except.ok.inj hw
      refine .widened hselected ?_ ?_ rfl
      · rw [SchemaUnion.isUnfilterable_filtered, hfilterable]
      · rw [SchemaUnion.declaredSelection?_congr (SchemaUnion.declaredSchemas_filtered _ _), hnone]
    · rw [SchemaUnion.narrow_of_not_declares hfilterable hp] at hw
      obtain rfl := Except.ok.inj hw
      exact .unfilterable hselected rfl rfl
  | restricted hselected hfilterable hsome h =>
    have hplain := SchemaUnion.eq_false_of_isUnfilterable_eq_false hfilterable
    have hselection : r.selected ≠ none := by
      rw [hselected]
      exact Option.some_ne_none _
    have hsteps : ∀ path, p.field = .text path →
        ∀ s ∈ narrowed.declaredSchemas, s.StepsInto path := by
      rw [hdeclared hplain]
      exact hsteps hselection
    obtain hgeneric | ⟨hfound, hfield⟩ := hneeds hselection hfilterable
    · rw [h.isGeneric] at hgeneric
      cases hgeneric
    rw [← SchemaUnion.declares_congr (hdeclared hplain)] at hfield
    obtain ⟨rfl, hrestricts⟩ | ⟨rfl, rfl⟩ :=
      h.narrow hnarrowed.rooted hfilterable hfound he hsteps hfield hu hw
    · refine .restricted hselected ?_ ?_ hrestricts
      · rw [SchemaUnion.isUnfilterable_filtered, hfilterable]
      · rw [SchemaUnion.declaredSelection?_congr (SchemaUnion.declaredSchemas_filtered _ _), hsome]
    · exact .unfilterable hselected rfl rfl

/-- A selection takes the place of the last one. -/
theorem select (hf : Follows narrowed r) (hr : r.schemas.Reachable) (hnarrowed : narrowed.Reachable)
    (hdeclared : narrowed.isGeneric = false → narrowed.declaredSchemas = start.declaredSchemas)
    {fields : List Value}
    (hneeds : r.selected ≠ none → narrowed.isUnfilterable = false →
      (Clause.select fields).Needs start r.schemas) :
    Follows narrowed ⟨r.handle, r.schemas.select fields, r.predicates, some fields⟩ := by
  cases hf with
  | unselected hselected h =>
    cases hfilterable : narrowed.isUnfilterable with
    | true =>
      rw [h, SchemaUnion.select_of_unfilterable hfilterable]
      exact .unfilterable rfl hfilterable rfl
    | false =>
      have hplain := SchemaUnion.eq_false_of_isUnfilterable_eq_false hfilterable
      cases hfields : narrowed.declaredSelection? fields with
      | none =>
        rw [h, SchemaUnion.select_of_none hfilterable hfields]
        exact .widened rfl hfilterable hfields rfl
      | some names =>
        rw [h, SchemaUnion.select_of_some hfilterable hfields]
        exact .restricted rfl hfilterable hfields
          (.ofMapped hplain hnarrowed.rooted hnarrowed.originated names)
  | unfilterable hselected hunfilterable h =>
    rw [h, SchemaUnion.select_of_unfilterable hunfilterable]
    exact .unfilterable rfl hunfilterable rfl
  | widened hselected hfilterable hnone h =>
    have hselection : r.selected ≠ none := by
      rw [hselected]
      exact Option.some_ne_none _
    have hfound := (hneeds hselection hfilterable).1
    rw [h] at hfound
    cases hfound
  | restricted hselected hfilterable hsome h =>
    have hplain := SchemaUnion.eq_false_of_isUnfilterable_eq_false hfilterable
    have hselection : r.selected ≠ none := by
      rw [hselected]
      exact Option.some_ne_none _
    obtain ⟨hfound, hfields⟩ := hneeds hselection hfilterable
    have hkeeps : ∀ field ∈ fields, narrowed.DeclaresName field → r.schemas.DeclaresName field := by
      intro field hfield hname
      rw [SchemaUnion.DeclaresName,
        SchemaUnion.declaredFieldNames_congr (hdeclared hplain)] at hname
      exact hfields field hfield hname
    obtain ⟨hnone, hgeneric⟩ | ⟨more, hmore, hrestricts⟩ :=
      h.select hnarrowed.rooted hr.originated hfound hkeeps
    · exact .widened rfl hfilterable hnone hgeneric
    · exact .restricted rfl hfilterable hmore hrestricts

end Follows

/-! ### Runs of clauses -/

theorem exists_returns_filterBy {field symbol value : Value} {p : Predicate}
    (hp : Predicate.ofSymbol field symbol value = .ok p) {r : QueryHandle Handle} {u : SchemaUnion}
    (hu : r.schemas.narrow p = .ok u) (before : Journal Handle) :
    ∃ after, (r.filterBy field symbol value).Returns before
      ⟨r.handle, u, r.predicates ++ [p], r.selected⟩ after := by
  have hpredicate : (Action.predicate field symbol value : Action Handle Predicate).Returns
      before p before := Action.returns_lift_iff.2 ⟨hp, rfl⟩
  have hnarrow : (Action.narrow r.schemas p : Action Handle SchemaUnion).Returns before u
      ⟨before.requests, before.entries ++ r.schemas.narrowLog p⟩ :=
    Action.returns_bind_iff.2
      ⟨(), _, Action.returns_report_iff.2 rfl, Action.returns_lift_iff.2 ⟨hu, rfl⟩⟩
  exact ⟨_, Action.returns_bind_iff.2 ⟨p, before, hpredicate,
    Action.returns_bind_iff.2 ⟨u, _, hnarrow, Action.returns_pure_iff.2 ⟨rfl, rfl⟩⟩⟩⟩

theorem returns_select {fields : List Value} (hfields : Value.allHashable fields = true)
    (r : QueryHandle Handle) (before : Journal Handle) :
    (r.select fields).Returns before
      ⟨r.handle, r.schemas.select fields, r.predicates, some fields⟩ before := by
  have hproject := r.schemas.project_tuple hfields
  exact Action.returns_bind_iff.2
    ⟨_, before, Action.returns_lift_iff.2 ⟨hproject, rfl⟩, Action.returns_pure_iff.2 ⟨rfl, rfl⟩⟩

/-- Narrowed by what was lost, the schemas are any shape. -/
theorem isUnfilterable_narrow {start u w : SchemaUnion} {p : Predicate} {symbol value : Value}
    (h : ¬ (Clause.filter p.field symbol value).Needs start u) (hw : u.narrow p = .ok w) :
    w.isUnfilterable = true := by
  cases hu : u.isUnfilterable with
  | true =>
    rw [SchemaUnion.narrow_of_unfilterable hu] at hw
    exact Except.ok.inj hw ▸ hu
  | false =>
    have hlost : ¬ u.Declares p.field := fun hd => h (.inr ⟨hu, fun _ => hd⟩)
    rw [SchemaUnion.narrow_of_not_declares hu hlost] at hw
    exact Except.ok.inj hw ▸ rfl

theorem isUnfilterable_select {start u : SchemaUnion} {fields : List Value}
    (h : ¬ (Clause.select fields).Needs start u) : (u.select fields).isUnfilterable = true := by
  cases hu : u.isUnfilterable with
  | true => rw [SchemaUnion.select_of_unfilterable hu, hu]
  | false =>
    cases hfields : u.declaredSelection? fields with
    | none => rw [SchemaUnion.select_of_none hu hfields]; rfl
    | some names =>
      obtain ⟨rfl, hall⟩ := SchemaUnion.declaredSelection?_eq_some hfields
      refine absurd ⟨hu, fun field hfield _ => ?_⟩ h
      obtain ⟨name, hname, rfl⟩ := List.mem_map.1 hfield
      exact ⟨name, rfl, hall name hname⟩

/--
A query behind the clauses: what it recorded of them, and schemas that follow from that unless, behind
a selection, they can no longer be filtered.
-/
structure Recorded (q : QueryHandle Handle) (clauses : List Clause) (r : QueryHandle Handle)
    (narrowed : SchemaUnion) : Prop where
  predicates : r.predicates = clauses.filterMap Clause.predicate?
  selected : r.selected = (clauses.filterMap Clause.selection?).getLast?
  reachable : r.schemas.Reachable
  narrowAll : q.schemas.narrowAll r.predicates = .ok narrowed
  follows : r.selected ≠ none ∧ r.schemas.isUnfilterable = true ∨ Follows narrowed r
  heeding : q.Heeds clauses → Follows narrowed r

theorem build_concat (q : QueryHandle Handle) (clauses : List Clause) (clause : Clause) :
    q.build (clauses ++ [clause]) = q.build clauses >>= (refine · clause) := by
  rw [build, build, List.foldlM_append]
  simp only [List.foldlM_cons, List.foldlM_nil, bind_pure]

theorem Heeds.of_append {q : QueryHandle Handle} {earlier later : List Clause}
    (h : q.Heeds (earlier ++ later)) : q.Heeds earlier := by
  intro first clause rest hsplit
  refine h first clause (rest ++ later) ?_
  rw [hsplit, List.append_assoc, List.cons_append]

theorem StepsInto.of_append {q : QueryHandle Handle} {earlier later : List Clause}
    (h : q.StepsInto (earlier ++ later)) : q.StepsInto earlier := by
  intro first clause rest hsplit
  refine h first clause (rest ++ later) ?_
  rw [hsplit, List.append_assoc, List.cons_append]

namespace Recorded

variable {q r : QueryHandle Handle} {clauses : List Clause} {narrowed : SchemaUnion}

theorem start (hq : q.Base) : q.Recorded [] q q.schemas := by
  obtain ⟨hreachable, hpredicates, hselected⟩ := hq.fresh
  have hfollows : Follows q.schemas q := .unselected hselected rfl
  refine ⟨hpredicates, hselected, hreachable, ?_, .inr hfollows, fun _ => hfollows⟩
  rw [hpredicates]
  rfl

theorem select_mem (h : q.Recorded clauses r narrowed) {fields : List Value}
    (hfields : r.selected = some fields) : Clause.select fields ∈ clauses := by
  have hmem := List.mem_of_getLast? (h.selected.symm.trans hfields)
  obtain ⟨clause, hclause, hselection⟩ := List.mem_filterMap.1 hmem
  cases clause with
  | filter field symbol value => cases hselection
  | select others =>
    obtain rfl := Option.some.inj hselection
    exact hclause

/-- A filter is recorded, and the schemas stay in step with it or can no longer be filtered. -/
theorem filter (h : q.Recorded clauses r narrowed) (hnarrowed : narrowed.Reachable)
    {field symbol value : Value} {p : Predicate}
    (hp : Predicate.ofSymbol field symbol value = .ok p)
    (hsteps : r.selected ≠ none → (Clause.filter field symbol value).StepsInto q.schemas)
    (hheeds : q.Heeds (clauses ++ [.filter field symbol value]) → r.selected ≠ none →
      narrowed.isUnfilterable = false →
        (Clause.filter field symbol value).Needs q.schemas r.schemas)
    {u w : SchemaUnion} (hu : r.schemas.narrow p = .ok u) (hw : narrowed.narrow p = .ok w) :
    q.Recorded (clauses ++ [.filter field symbol value])
      ⟨r.handle, u, r.predicates ++ [p], r.selected⟩ w := by
  have hdeclared := SchemaUnion.declaredSchemas_narrowAll h.narrowAll
  obtain ⟨rfl, hvalue⟩ := Predicate.of_ofSymbol hp
  have he := hvalue.evaluable
  have hrecorded : [Clause.filter p.field symbol value].filterMap Clause.predicate? = [p] := by
    rw [List.filterMap_cons, Clause.predicate?, hp]
    rfl
  refine ⟨?_, ?_, h.reachable.narrow hu, SchemaUnion.narrowAll_concat h.narrowAll hw, ?_,
    fun hall => ?_⟩
  · rw [List.filterMap_append, ← h.predicates, hrecorded]
  · rw [List.filterMap_append, h.selected]
    exact congrArg List.getLast? (List.append_nil _).symm
  · obtain ⟨hselected, hused⟩ | hfollows := h.follows
    · rw [SchemaUnion.narrow_of_unfilterable hused] at hu
      obtain rfl := Except.ok.inj hu
      exact .inl ⟨hselected, hused⟩
    · by_cases hneeds : r.selected ≠ none → narrowed.isUnfilterable = false →
        (Clause.filter p.field symbol value).Needs q.schemas r.schemas
      · exact .inr (hfollows.narrow hnarrowed hdeclared he hsteps hneeds hu hw)
      · obtain ⟨hselected, hneeds⟩ := Classical.not_imp.1 hneeds
        obtain ⟨-, hneeds⟩ := Classical.not_imp.1 hneeds
        exact .inl ⟨hselected, isUnfilterable_narrow hneeds hu⟩
  · exact (h.heeding hall.of_append).narrow hnarrowed hdeclared he hsteps (hheeds hall) hu hw

/-- A selection is recorded in the place of the last one. -/
theorem select (h : q.Recorded clauses r narrowed) (hnarrowed : narrowed.Reachable)
    {fields : List Value} (hvalid : Value.allHashable fields = true)
    (hheeds : q.Heeds (clauses ++ [.select fields]) → r.selected ≠ none →
      narrowed.isUnfilterable = false → (Clause.select fields).Needs q.schemas r.schemas) :
    q.Recorded (clauses ++ [.select fields])
      ⟨r.handle, r.schemas.select fields, r.predicates, some fields⟩ narrowed := by
  have hdeclared := SchemaUnion.declaredSchemas_narrowAll h.narrowAll
  refine ⟨?_, ?_, h.reachable.project (r.schemas.project_tuple hvalid), h.narrowAll, ?_,
    fun hall => ?_⟩
  · rw [List.filterMap_append, h.predicates]
    exact (List.append_nil _).symm
  · rw [List.filterMap_append]
    exact List.getLast?_concat.symm
  · obtain ⟨-, hused⟩ | hfollows := h.follows
    · refine .inl ⟨Option.some_ne_none _, ?_⟩
      rw [SchemaUnion.select_of_unfilterable hused, hused]
    · by_cases hneeds : r.selected ≠ none → narrowed.isUnfilterable = false →
        (Clause.select fields).Needs q.schemas r.schemas
      · exact .inr (hfollows.select h.reachable hnarrowed hdeclared hneeds)
      · obtain ⟨-, hneeds⟩ := Classical.not_imp.1 hneeds
        obtain ⟨-, hneeds⟩ := Classical.not_imp.1 hneeds
        exact .inl ⟨Option.some_ne_none _, isUnfilterable_select hneeds⟩
  · exact (h.heeding hall.of_append).select h.reachable hnarrowed hdeclared (hheeds hall)

/-- A clause returns a query that records it. -/
theorem refine (h : q.Recorded clauses r narrowed) (hq : q.schemas.Reachable) {clause : Clause}
    (hvalid : clause.Valid) (hsteps : q.StepsInto (clauses ++ [clause]))
    {begun before : Journal Handle} (hrun : (q.build clauses).Returns begun r before) :
    ∃ r' narrowed' after, (r.refine clause).Returns before r' after ∧
      q.Recorded (clauses ++ [clause]) r' narrowed' := by
  have hnarrowed := hq.narrowAll h.narrowAll
  have hsteps : r.selected ≠ none → clause.StepsInto q.schemas := by
    intro hselected
    obtain ⟨fields, hfields⟩ := Option.ne_none_iff_exists'.1 hselected
    exact hsteps clauses clause [] rfl ⟨fields, h.select_mem hfields⟩
  have hheeds : q.Heeds (clauses ++ [clause]) → r.selected ≠ none →
      narrowed.isUnfilterable = false → clause.Needs q.schemas r.schemas :=
    fun hheeds hselected =>
      hheeds clauses clause [] rfl begun r before hrun hselected narrowed h.narrowAll
  cases clause with
  | filter field symbol value =>
    obtain ⟨p, hp⟩ := hvalid
    have he := (Predicate.of_ofSymbol hp).2.evaluable
    obtain ⟨u, hu⟩ := r.schemas.exists_narrow he
    obtain ⟨w, hw⟩ := narrowed.exists_narrow he
    obtain ⟨after, hreturns⟩ := exists_returns_filterBy hp hu before
    exact ⟨_, w, after, hreturns, h.filter hnarrowed hp hsteps hheeds hu hw⟩
  | select fields =>
    exact ⟨_, narrowed, before, returns_select hvalid r before,
      h.select hnarrowed hvalid hheeds⟩

end Recorded

theorem exists_recorded {q : QueryHandle Handle} (hq : q.Base) {clauses : List Clause}
    (hvalid : ∀ clause ∈ clauses, clause.Valid) (hsteps : q.StepsInto clauses)
    (before : Journal Handle) :
    ∃ r narrowed after, (q.build clauses).Returns before r after ∧
      q.Recorded clauses r narrowed := by
  induction clauses using List.reverseRecOn with
  | nil => exact ⟨q, q.schemas, before, Action.returns_pure_iff.2 ⟨rfl, rfl⟩, .start hq⟩
  | append_singleton earlier clause ih =>
    obtain ⟨hearlier, hlast⟩ := List.forall_mem_append.1 hvalid
    obtain ⟨r, narrowed, between, hr, hrecorded⟩ := ih hearlier hsteps.of_append
    obtain ⟨r', narrowed', after, hr', hrecorded'⟩ :=
      hrecorded.refine hq.fresh.1 (hlast clause List.mem_cons_self) hsteps hr
    refine ⟨r', narrowed', after, ?_, hrecorded'⟩
    rw [build_concat]
    exact Action.returns_bind_iff.2 ⟨r, between, hr, hr'⟩

/--
The schemas of a query follow from the clauses that it recorded. Without a selection they are what the
predicates leave of the schemas that the query started from. With one they are these restricted to the
last selection, or they can no longer be filtered, being any shape or declaring nothing; and they are
the restriction in any case if every clause behind a selection finds what it needs.
-/
theorem schemas_of_recorded {q : QueryHandle Handle} (hq : q.Base) {clauses : List Clause}
    (hvalid : ∀ clause ∈ clauses, clause.Valid) (hsteps : q.StepsInto clauses)
    (before : Journal Handle) :
    ∃ r narrowed after, (q.build clauses).Returns before r after ∧
      r.predicates = clauses.filterMap Clause.predicate? ∧
      r.selected = (clauses.filterMap Clause.selection?).getLast? ∧
      q.schemas.narrowAll r.predicates = .ok narrowed ∧
      (r.selected = none → r.schemas = narrowed) ∧
      ∀ fields, r.selected = some fields →
        ∃ projected, narrowed.project (.sequence .tuple fields) = .ok projected ∧
          (r.schemas.isUnfilterable = true ∨ r.schemas.Agrees projected) ∧
          (q.Heeds clauses → r.schemas.Agrees projected) := by
  obtain ⟨r, narrowed, after, hr, h⟩ := exists_recorded hq hvalid hsteps before
  have hnarrowed := hq.fresh.1.narrowAll h.narrowAll
  refine ⟨r, narrowed, after, hr, h.predicates, h.selected, h.narrowAll, fun hselected => ?_,
    fun fields hfields => ?_⟩
  · obtain ⟨hne, -⟩ | hfollows := h.follows
    · exact absurd hselected hne
    · exact hfollows.eq_of_unselected hselected
  · have hhashable : Value.allHashable fields = true := hvalid _ (h.select_mem hfields)
    refine ⟨_, narrowed.project_tuple hhashable, ?_, fun hheeds => ?_⟩
    · exact h.follows.imp And.right fun hfollows => hfollows.agrees h.reachable hnarrowed hfields
    · exact (h.heeding hheeds).agrees h.reachable hnarrowed hfields

/-! ### A store of people -/

def person : Schema := ⟨[("age", .primitive .number), ("name", .primitive .string)]⟩

/-- A store of people with a name and an age. -/
def peopleStore : Store Unit where
  client := ⟨fun _ _ _ _ => (), fun _ _ => []⟩
  tree := {
    collections := [(0, ⟨[("*", .declared 0)], some "*"⟩)]
    documents := [(0, ⟨person, []⟩)]
    root := ⟨.empty, [("people", 0)]⟩ }
  depth := 64

def people : CollectionHandle Unit where
  store := peopleStore
  handle := ()
  path := ⟨[⟨"people", .literal⟩]⟩
  schemas := .ofPairs [(person, "people/\x7bid\x7d")]

theorem base_people : people.query.Base := by
  have hopen : ∃ after, (peopleStore.collection [.text "people"]).Returns .blank people after :=
    ⟨_, rfl⟩
  obtain ⟨after, h⟩ := hopen
  exact .collection h

/-- The names of all whose age is known, but Ann. -/
def knownAge : List Clause :=
  [.filter (.text "age") (.text "has-field") .null, .select [.text "name"],
    .filter (.text "name") (.text "!=") (.text "Ann")]

theorem heeds_knownAge : people.query.Heeds knownAge := by
  intro earlier clause later hsplit before r after hrun hselected narrowed hnarrowed hfilterable
  rcases earlier with _ | ⟨first, _ | ⟨second, _ | ⟨third, rest⟩⟩⟩
  · obtain ⟨hr, -⟩ := Prod.mk.inj hrun
    obtain rfl := Except.ok.inj hr
    exact absurd rfl hselected
  · obtain ⟨rfl, -⟩ := List.cons.inj hsplit
    obtain ⟨hr, -⟩ := Prod.mk.inj hrun
    obtain rfl := Except.ok.inj hr
    exact absurd rfl hselected
  -- the only clause behind the selection asks for the name, which was selected
  · simp only [knownAge, List.cons_append, List.nil_append, List.cons.injEq] at hsplit
    obtain ⟨rfl, rfl, rfl, -⟩ := hsplit
    obtain ⟨hr, -⟩ := Prod.mk.inj hrun
    obtain rfl := Except.ok.inj hr
    exact .inr ⟨rfl, fun _ => ⟨"name", SchemaUnion.declaredField?_eq_some.1 rfl⟩⟩
  · simp [knownAge] at hsplit

theorem schemas_of_recorded_people :
    people.query.Base ∧ people.query.Heeds knownAge ∧
    ∃ r narrowed projected after, (people.query.build knownAge).Returns .blank r after ∧
        people.query.schemas.narrowAll r.predicates = .ok narrowed ∧
        r.selected = some [.text "name"] ∧
        narrowed.project (.sequence .tuple [.text "name"]) = .ok projected ∧
        r.schemas.Agrees projected := by
  have hvalid : ∀ clause ∈ knownAge, clause.Valid := by
    intro clause hclause
    simp only [knownAge, List.mem_cons, List.not_mem_nil, or_false] at hclause
    rcases hclause with rfl | rfl | rfl
    · exact ⟨_, rfl⟩
    · exact rfl
    · exact ⟨_, rfl⟩
  have hsteps : people.query.StepsInto knownAge := by
    intro earlier clause later hsplit _
    have hclause : clause ∈ knownAge := by
      rw [hsplit]
      exact List.mem_append_right _ List.mem_cons_self
    simp only [knownAge, List.mem_cons, List.not_mem_nil, or_false] at hclause
    rcases hclause with rfl | rfl | rfl
    · rintro path hpath s - hdot
      obtain rfl := Value.text.inj hpath
      exact absurd hdot (by decide)
    · trivial
    · rintro path hpath s - hdot
      obtain rfl := Value.text.inj hpath
      exact absurd hdot (by decide)
  obtain ⟨r, narrowed, after, hrun, -, hselected, hnarrowed, -, hagrees⟩ :=
    schemas_of_recorded base_people hvalid hsteps .blank
  obtain ⟨projected, hprojected, -, hheeds⟩ := hagrees [.text "name"] hselected
  exact ⟨base_people, heeds_knownAge, r, narrowed, projected, after, hrun, hnarrowed, hselected,
    hprojected, hheeds heeds_knownAge⟩

/-! ### Clauses that need what a selection dropped -/

/--
The schemas of the query behind the clauses are not those that its predicates and its last selection
leave of the schemas that it started from.
-/
def Departs (q : QueryHandle Handle) (clauses : List Clause) : Prop :=
  ∃ r after narrowed fields projected, (q.build clauses).Returns .blank r after ∧
    q.schemas.narrowAll r.predicates = .ok narrowed ∧ r.selected = some fields ∧
    narrowed.project (.sequence .tuple fields) = .ok projected ∧ r.schemas.same projected = false

/-- A second selection cannot bring back what the first one dropped. -/
theorem departs_people :
    people.query.Departs [.select [.text "name"], .select [.text "age"]] :=
  ⟨_, _, _, _, _, rfl, rfl, rfl, rfl, rfl⟩

/-- Notes have a field with a dot in its name. -/
def note : Schema := ⟨[("a", .map [("b", .primitive .string)]), ("a.b", .primitive .number)]⟩

def noteStore : Store Unit where
  client := ⟨fun _ _ _ _ => (), fun _ _ => []⟩
  tree := {
    collections := [(0, ⟨[("*", .declared 0)], some "*"⟩)]
    documents := [(0, ⟨note, []⟩)]
    root := ⟨.empty, [("notes", 0)]⟩ }
  depth := 64

def notes : CollectionHandle Unit where
  store := noteStore
  handle := ()
  path := ⟨[⟨"notes", .literal⟩]⟩
  schemas := .ofPairs [(note, "notes/\x7bid\x7d")]

theorem base_notes : notes.query.Base := by
  have hopen : ∃ after, (noteStore.collection [.text "notes"]).Returns .blank notes after :=
    ⟨_, rfl⟩
  obtain ⟨after, h⟩ := hopen
  exact .collection h

/-- The field with the dot equals three. -/
def isThree : Predicate := ⟨.text "a.b", .equal, .single (.literal (.number (.integer 3)))⟩

/-- Without the field with the dot, its name is taken for a path to another field. -/
theorem departs_notes : notes.query.Departs
    [.select [.text "a"], .filter (.text "a.b") (.text "==") (.number (.integer 3))] := by
  have hnested : (note.restrictedTo ["a"]).fieldAt? "a.b" = some (.primitive .string) := by rfl
  have hwhole : note.fieldAt? "a.b" = some (.primitive .number) := by rfl
  have hoverlaps : ∀ kind : Primitive,
      isThree.admits (.primitive kind) = decide (kind = .number) := by
    intro kind
    cases kind <;>
      simp [isThree, Predicate.admits, Operator.admits, Comparison.singleType, Except.map,
        FieldType.overlaps, FieldType.members, FieldType.isSubtype, Literal.base]
  have hlost : isThree.passedBy (note.restrictedTo ["a"]) = false := by
    rw [Predicate.passedBy, isThree]
    dsimp only
    rw [SchemaUnion.passes, hnested]
    exact hoverlaps .string
  have hkept : isThree.passedBy note = true := by
    rw [Predicate.passedBy, isThree]
    dsimp only
    rw [SchemaUnion.passes, hwhole]
    exact hoverlaps .number
  have hnone : [Variant.mk (note.restrictedTo ["a"]) ["notes/\x7bid\x7d"]].filter
      (fun v => isThree.passedBy v.schema) = [] := by
    rw [List.filter_cons, hlost]
    rfl
  have hall : [Variant.mk note ["notes/\x7bid\x7d"]].filter
      (fun v => isThree.passedBy v.schema) = [⟨note, ["notes/\x7bid\x7d"]⟩] := by
    rw [List.filter_cons, hkept]
    rfl
  refine ⟨_, _, _, _, _, rfl, rfl, rfl, rfl, ?_⟩
  change SchemaUnion.same
    (.candidates ([⟨note.restrictedTo ["a"], ["notes/\x7bid\x7d"]⟩].filter
      fun v => isThree.passedBy v.schema) _)
    ((SchemaUnion.candidates ([⟨note, ["notes/\x7bid\x7d"]⟩].filter
      fun v => isThree.passedBy v.schema) (some [note])).select [.text "a"]) = false
  rw [hnone, hall]
  rfl

theorem not_schemas_of_recorded :
    people.query.Base ∧ people.query.Departs [.select [.text "name"], .select [.text "age"]] ∧
    notes.query.Base ∧ notes.query.Departs
      [.select [.text "a"], .filter (.text "a.b") (.text "==") (.number (.integer 3))] :=
  ⟨base_people, departs_people, base_notes, departs_notes⟩

end QueryHandle
end SchemaAtlas
