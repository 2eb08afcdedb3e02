import SchemaAtlas.Proofs.Query.Matching
import SchemaAtlas.Tree.CollectionGroup
import SchemaAtlas.Tree.Resolution

/-!
# Selecting and filtering

A selection and filters on selected fields can be swapped on what resolution gives. A selection made
twice is made once, unless filters had dropped every schema with one of the selected fields: the first
selection still knows that the field was declared, and forgets it, so the second one says nothing.
-/
namespace SchemaAtlas

namespace SchemaUnion

/-- The unions that a tree gives for the path of a document or of a collection, or for a group. -/
inductive Resolved : SchemaUnion → Prop
  | document {t : SchemaTree} {path : Path} {u : SchemaUnion} (h : t.resolve path = .ok u) :
    Resolved u
  | collection {t : SchemaTree} {path : Path} {u : SchemaUnion}
    (h : t.resolveCollection path = .ok u) : Resolved u
  | collectionGroup {t : SchemaTree} {name : Except PathError String} {depth : Int} {u : SchemaUnion}
    (h : t.collectionGroup name depth = .ok u) : Resolved u

/-- They are made from declared schemas and not filtered. -/
theorem Resolved.exists_pairs {u : SchemaUnion} (h : u.Resolved) : ∃ pairs, u = ofPairs pairs := by
  cases h with
  | document h =>
    obtain ⟨path, -, rfl⟩ := exists_of_map_eq_ok h
    exact ⟨_, rfl⟩
  | collection h =>
    obtain ⟨path, -, rfl⟩ := exists_of_map_eq_ok h
    exact ⟨_, rfl⟩
  | collectionGroup h =>
    obtain ⟨name, -, h⟩ := exists_of_bind_eq_ok h
    obtain ⟨depth, -, h⟩ := exists_of_bind_eq_ok h
    exact ⟨_, (Except.ok.inj h).symm⟩

variable {u w whole : SchemaUnion} {names : List String} {fields : List Value}

theorem eq_generic_of_isGeneric (h : u.isGeneric = true) : u = generic := by
  cases u with
  | generic => rfl
  | candidates variants filteredFrom => cases h

theorem exists_declaredSelection? (h : ∀ field ∈ fields, u.DeclaresName field) :
    ∃ names, u.declaredSelection? fields = some names := by
  induction fields with
  | nil => exact ⟨[], rfl⟩
  | cons field rest ih =>
    obtain ⟨hfield, hrest⟩ := List.forall_mem_cons.1 h
    obtain ⟨name, rfl, hname⟩ := hfield
    obtain ⟨names, hnames⟩ := ih hrest
    refine ⟨name :: names, ?_⟩
    rw [declaredSelection?, if_pos (List.contains_iff_mem.2 hname), hnames]
    rfl

/-! ### A board of posts -/

def pinnedPost : Schema := ⟨[("pinned", .primitive .boolean), ("title", .primitive .string)]⟩

def draftPost : Schema := ⟨[("draft", .primitive .boolean), ("title", .primitive .string)]⟩

/-- A store with one post that may be pinned and one that may be a draft. -/
def board : SchemaTree where
  collections := [(0, ⟨[("p1", .declared 0), ("p2", .declared 1)], some "*"⟩)]
  documents := [(0, ⟨pinnedPost, []⟩), (1, ⟨draftPost, []⟩)]
  root := ⟨.empty, [("posts", 0)]⟩

def boardPosts : SchemaUnion := board.collectionUnion ⟨[⟨"posts", .literal⟩]⟩

theorem resolved_boardPosts : boardPosts.Resolved := by
  have h : board.resolveCollection ⟨[⟨"posts", .literal⟩]⟩ = .ok boardPosts := rfl
  exact .collection h

/-- The field that only drafts have is there. -/
def hasDraft : Predicate := ⟨.text "draft", .hasField, .nothing⟩

theorem ofValue_hasDraft : hasDraft.OfValue := ⟨.text "draft", .hasField, .null, rfl⟩

theorem narrow_boardPosts :
    boardPosts.narrow hasDraft = .ok (boardPosts.filtered hasDraft.passedBy) := by
  have hopen : boardPosts.isUnfilterable = false := by decide +kernel
  have hdeclared : boardPosts.declaresSchema draftPost = true := by decide +kernel
  have hfield : boardPosts.Declares hasDraft.field :=
    declares_iff.2 ⟨"draft", rfl, draftPost, hdeclared, rfl⟩
  exact narrow_of_declares hopen ofValue_hasDraft.evaluable hfield

/-! ### Filters behind a selection -/

theorem isUnfilterable_narrowAll (hu : u.isUnfilterable = false) {ps : List Predicate}
    (hw : u.narrowAll ps = .ok w) (hplain : w.isGeneric = false) : w.isUnfilterable = false := by
  rw [isUnfilterable_eq_false_iff, declaredSchemas_narrowAll hw hplain]
  exact ⟨hplain, (isUnfilterable_eq_false_iff.1 hu).2⟩

/-- Predicates narrow a union and its restriction alike, as one predicate does. -/
theorem RestrictionOf.narrowAll (h : u.RestrictionOf whole names) (hrooted : whole.Rooted)
    (hwhole : whole.isUnfilterable = false) (hfound : u.isUnfilterable = false)
    {ps : List Predicate} (he : ∀ p ∈ ps, p.Evaluable)
    (hsteps : ∀ p ∈ ps, ∀ path, p.field = .text path →
      ∀ s ∈ whole.declaredSchemas, s.StepsInto path)
    (hfield : ∀ p ∈ ps, whole.Declares p.field → u.Declares p.field) :
    ∃ v w, u.narrowAll ps = .ok v ∧ whole.narrowAll ps = .ok w ∧
      (w.isUnfilterable = false ∧ v.RestrictionOf w names ∨ w = generic ∧ v = generic) := by
  induction ps generalizing u whole with
  | nil => exact ⟨u, whole, rfl, rfl, .inl ⟨hwhole, h⟩⟩
  | cons p ps ih =>
    obtain ⟨he, herest⟩ := List.forall_mem_cons.1 he
    obtain ⟨hsteps, hstepsRest⟩ := List.forall_mem_cons.1 hsteps
    obtain ⟨hfield, hfieldRest⟩ := List.forall_mem_cons.1 hfield
    obtain ⟨v, hv⟩ := u.exists_narrow he
    obtain ⟨w, hw⟩ := whole.exists_narrow he
    rw [narrowAll_cons hv, narrowAll_cons hw]
    rcases h.narrow hrooted hwhole hfound he hsteps hfield hv hw with ⟨rfl, hnext⟩ | ⟨rfl, rfl⟩
    · have hsingle : u.narrowAll [p] = .ok v := narrowAll_cons hv []
      have hdeclared := declaredSchemas_narrowAll hsingle hnext.isGeneric
      have hfound' := isUnfilterable_narrowAll hfound hsingle hnext.isGeneric
      have hwhole' := (isUnfilterable_filtered p.passedBy whole).trans hwhole
      have hkept := declaredSchemas_filtered p.passedBy whole
      refine ih hnext (hrooted.filtered _) hwhole' hfound' herest ?_ ?_
      · rw [hkept]
        exact hstepsRest
      · intro q hq
        rw [declares_congr hkept, declares_congr hdeclared]
        exact hfieldRest q hq
    · exact ⟨generic, generic, narrowAll_of_unfilterable rfl ps, narrowAll_of_unfilterable rfl ps,
        .inr ⟨rfl, rfl⟩⟩

/-- Every variant has one behind a change of the schemas. -/
theorem Originated.exists_changed (hu : u.Originated) {v : Variant} (hv : v ∈ u.variants)
    (change : Schema → Schema) :
    ∃ w ∈ (u.mapped change).variants, w.schema.same (change v.schema) = true := by
  obtain ⟨origin, horigin⟩ := hu v hv
  have hheld : (u.mapped change).HasOrigin (change v.schema) origin :=
    hasOrigin_mapped.2 ⟨v, hv, Schema.same_refl _, horigin⟩
  obtain ⟨w, hw, hsame, -⟩ := hheld
  exact ⟨w, hw, hsame⟩

/-- A variant behind a change of the schemas comes from one before. -/
theorem Originated.exists_of_changed (hu : u.Originated) {change : Schema → Schema} {w : Variant}
    (hw : w ∈ (u.mapped change).variants) :
    ∃ v ∈ u.variants, (change v.schema).same w.schema = true := by
  obtain ⟨origin, horigin⟩ := hu.mapped change w hw
  obtain ⟨v, hv, hsame, -⟩ := hasOrigin_mapped.1 ⟨w, hw, w.schema.same_refl, horigin⟩
  exact ⟨v, hv, hsame⟩

/-- A selected field of a union that was not filtered is still declared behind the selection. -/
theorem declares_mapped (hu : u.Originated) (hfresh : u.declaredSchemas = u.schemas) {path : String}
    (hpath : path ∈ names) (hdot : '.' ∉ path.toList) (h : u.Declares (.text path)) :
    (u.mapped (·.restrictedTo names)).Declares (.text path) := by
  obtain ⟨_, hname, s, hs, hfield⟩ := h
  obtain rfl := Value.text.inj hname
  rw [hfresh] at hs
  obtain ⟨v, hv, rfl⟩ := List.mem_map.1 hs
  obtain ⟨w, hw, hsame⟩ := hu.exists_changed hv (·.restrictedTo names)
  have hroot : Schema.rootOf path ∈ names := by rwa [Schema.rootOf_of_not_dotted hdot]
  have hkept : (v.schema.restrictedTo names).hasField path = true := by
    rw [Schema.hasField, Schema.fieldAt?_restrictedTo (fun h => absurd h hdot) hroot]
    exact hfield
  refine ⟨path, rfl, w.schema, ?_, Schema.hasField_of_same (Schema.same_symm hsame) hkept⟩
  rw [declaredSchemas_mapped]
  exact List.mem_map_of_mem hw

theorem isUnfilterable_mapped_eq_false_iff (hu : u.Originated) (hplain : u.isGeneric = false)
    {change : Schema → Schema} : (u.mapped change).isUnfilterable = false ↔ u.variants ≠ [] := by
  have hnil : (u.mapped change).variants = [] ↔ u.variants = [] := by
    simp only [List.eq_nil_iff_forall_not_mem]
    constructor
    · intro h v hv
      obtain ⟨w, hw, -⟩ := hu.exists_changed hv change
      exact h w hw
    · intro h w hw
      obtain ⟨v, hv, -⟩ := hu.exists_of_changed hw
      exact h v hv
  rw [isUnfilterable_eq_false_iff, isGeneric_mapped, declaredSchemas_mapped, schemas, ne_eq,
    List.map_eq_nil_iff, hnil, and_iff_right hplain]

/-- Filters do not change what is declared, so a selection is refused behind them as well. -/
theorem select_narrowAll_of_none (hu : u.isUnfilterable = false)
    (hnames : u.declaredSelection? fields = none) {ps : List Predicate}
    (hw : u.narrowAll ps = .ok w) : w.select fields = generic := by
  by_cases hwidened : w.isGeneric = true
  · rw [eq_generic_of_isGeneric hwidened, select_of_unfilterable rfl]
  · have hplain : w.isGeneric = false := eq_false_of_ne_true hwidened
    have hdeclared := declaredSchemas_narrowAll hw hplain
    have hopen := isUnfilterable_narrowAll hu hw hplain
    rw [select_of_none hopen ((declaredSelection?_congr hdeclared fields).trans hnames)]

/-- A selection that is not refused gives what is left in the restriction. -/
theorem RestrictionOf.matches_select {v : SchemaUnion} (h : v.RestrictionOf w names)
    (hv : v.Reachable) (hw : w.Reachable) (hopen : w.isUnfilterable = false)
    (hnames : ∀ name ∈ names, name ∈ w.declaredFieldNames) :
    (w.select (names.map .text)).Matches v := by
  have hplain := eq_false_of_isUnfilterable_eq_false hopen
  have hagrees : v.Agrees (w.mapped (·.restrictedTo names)) := h.agrees hv hw hplain
  rw [select_of_some hopen (declaredSelection?_map_text hnames)]
  exact hagrees.symm.matches (hw.mapped _).wellFormed hv.wellFormed

/--
A union that was not filtered declares what it holds, and the selection declares all that is selected
of it.
-/
theorem matches_narrowAll_mapped (hu : u.Reachable) (hopen : u.isUnfilterable = false)
    (hfresh : u.declaredSchemas = u.schemas)
    (hnames : ∀ name ∈ names, name ∈ u.declaredFieldNames) {ps : List Predicate}
    (he : ∀ p ∈ ps, p.Evaluable)
    (hfields : ∀ p ∈ ps, ∃ name ∈ names, p.field = .text name ∧ '.' ∉ name.toList)
    (hw : u.narrowAll ps = .ok w) :
    ∃ v, (u.mapped (·.restrictedTo names)).narrowAll ps = .ok v ∧
      (w.select (names.map .text)).Matches v := by
  obtain ⟨hplain, hdeclares⟩ := isUnfilterable_eq_false_iff.1 hopen
  have hheld : u.variants ≠ [] := by
    rw [hfresh, schemas, ne_eq, List.map_eq_nil_iff] at hdeclares
    exact hdeclares
  have hfound : (u.mapped (·.restrictedTo names)).isUnfilterable = false :=
    (isUnfilterable_mapped_eq_false_iff hu.originated hplain).2 hheld
  have hsteps : ∀ p ∈ ps, ∀ path, p.field = .text path →
      ∀ s ∈ u.declaredSchemas, s.StepsInto path := by
    intro p hp path hpath s _ hdot
    obtain ⟨name, -, hfield, hname⟩ := hfields p hp
    obtain rfl : name = path := Value.text.inj (hfield.symm.trans hpath)
    exact absurd hdot hname
  have hkept : ∀ p ∈ ps, u.Declares p.field →
      (u.mapped (·.restrictedTo names)).Declares p.field := by
    intro p hp hdeclared
    obtain ⟨name, hname, hfield, hdot⟩ := hfields p hp
    rw [hfield] at hdeclared ⊢
    exact declares_mapped hu.originated hfresh hname hdot hdeclared
  have hrestriction : (u.mapped (·.restrictedTo names)).RestrictionOf u names :=
    .ofMapped hplain hu.rooted hu.originated names
  obtain ⟨v, narrowed, hv, hnarrowed, h⟩ :=
    hrestriction.narrowAll hu.rooted hopen hfound he hsteps hkept
  obtain rfl := Except.ok.inj (hw.symm.trans hnarrowed)
  refine ⟨v, hv, ?_⟩
  rcases h with ⟨hopenW, hrestricts⟩ | ⟨rfl, rfl⟩
  · have hplainW := eq_false_of_isUnfilterable_eq_false hopenW
    have hnamesW := declaredFieldNames_congr (declaredSchemas_narrowAll hw hplainW)
    rw [← hnamesW] at hnames
    exact hrestricts.matches_select ((hu.mapped _).narrowAll hv) (hu.narrowAll hw) hopenW hnames
  · rw [select_of_unfilterable rfl]
    exact (Coincides.refl _).toMatches

/--
On what resolution gives, predicates on selected fields without a dot can be applied before the
selection or behind it: no step fails, and the results have the same schemas and origins, or are of any
shape both.
-/
theorem project_narrowAll (hu : u.Resolved) {selection : Value}
    (hselection : selection.selection? = some fields) {ps : List Predicate}
    (hps : ∀ p ∈ ps, p.OfValue) (hfields : ∀ p ∈ ps, p.field ∈ fields)
    (hdots : ∀ p ∈ ps, ∀ path, p.field = .text path → '.' ∉ path.toList) :
    ∃ narrowed a selected b, u.narrowAll ps = .ok narrowed ∧ narrowed.project selection = .ok a ∧
      u.project selection = .ok selected ∧ selected.narrowAll ps = .ok b ∧ a.Matches b := by
  have he : ∀ p ∈ ps, p.Evaluable := fun p hp => (hps p hp).evaluable
  obtain ⟨pairs, hpairs⟩ := hu.exists_pairs
  have hreachable : u.Reachable := by
    rw [hpairs]
    exact .ofPairs pairs
  have hfresh : u.declaredSchemas = u.schemas := by
    rw [hpairs]
    rfl
  obtain ⟨narrowed, hnarrowed⟩ := u.exists_narrowAll he
  suffices h : ∃ b, (u.select fields).narrowAll ps = .ok b ∧ (narrowed.select fields).Matches b by
    obtain ⟨b, hb, hmatches⟩ := h
    exact ⟨narrowed, _, _, b, hnarrowed, project_eq hselection, project_eq hselection, hb, hmatches⟩
  by_cases hunfilterable : u.isUnfilterable = true
  · rw [narrowAll_of_unfilterable hunfilterable] at hnarrowed
    obtain rfl := Except.ok.inj hnarrowed
    rw [select_of_unfilterable hunfilterable, narrowAll_of_unfilterable hunfilterable]
    exact ⟨u, rfl, (Coincides.refl u).toMatches⟩
  have hopen : u.isUnfilterable = false := eq_false_of_ne_true hunfilterable
  cases hnames : u.declaredSelection? fields with
  | none =>
    rw [select_of_none hopen hnames, select_narrowAll_of_none hopen hnames hnarrowed,
      narrowAll_of_unfilterable rfl]
    exact ⟨generic, rfl, (Coincides.refl _).toMatches⟩
  | some names =>
    obtain ⟨rfl, hall⟩ := declaredSelection?_eq_some hnames
    rw [select_of_some hopen hnames]
    refine matches_narrowAll_mapped hreachable hopen hfresh hall he (fun p hp => ?_) hnarrowed
    obtain ⟨name, hname, hfield⟩ := List.mem_map.1 (hfields p hp)
    exact ⟨name, hname, hfield.symm, hdots p hp name hfield.symm⟩

/-- Drafts can be picked before their fields are selected or behind that. -/
theorem project_narrowAll_board :
    let selection : Value := .sequence .list [.text "draft", .text "title"]
    boardPosts.Resolved ∧ selection.selection? = some [.text "draft", .text "title"] ∧
      hasDraft.OfValue ∧
      ∃ narrowed a selected b, boardPosts.narrowAll [hasDraft] = .ok narrowed ∧
        narrowed.project selection = .ok a ∧ boardPosts.project selection = .ok selected ∧
        selected.narrowAll [hasDraft] = .ok b ∧ a.Matches b ∧
        b.originsOf draftPost = ["posts/p2"] := by
  intro selection
  have hselection : selection.selection? = some [.text "draft", .text "title"] := rfl
  have hps : ∀ p ∈ [hasDraft], p.OfValue := List.forall_mem_singleton.2 ofValue_hasDraft
  have hfields : ∀ p ∈ [hasDraft], p.field ∈ [Value.text "draft", Value.text "title"] :=
    List.forall_mem_singleton.2 List.mem_cons_self
  have hdots : ∀ p ∈ [hasDraft], ∀ path, p.field = .text path → '.' ∉ path.toList := by
    refine List.forall_mem_singleton.2 fun path hpath => ?_
    obtain rfl := Value.text.inj hpath
    decide
  obtain ⟨narrowed, a, selected, b, hnarrowed, ha, hselected, hb, hmatches⟩ :=
    project_narrowAll resolved_boardPosts hselection hps hfields hdots
  have horigins : a.originsOf draftPost = ["posts/p2"] := by
    rw [narrowAll_cons narrow_boardPosts] at hnarrowed
    obtain rfl := Except.ok.inj hnarrowed
    rw [project_eq hselection] at ha
    obtain rfl := Except.ok.inj ha
    decide +kernel
  exact ⟨resolved_boardPosts, hselection, ofValue_hasDraft, narrowed, a, selected, b, hnarrowed, ha,
    hselected, hb, hmatches, hmatches.originsOf draftPost ▸ horigins⟩

/-! ### A selection made twice -/

/--
All selected names were declared before any filtering, but one of them by no schema that is left, while
some schema is left.
-/
def SelectsLost (u : SchemaUnion) (fields : List Value) : Prop :=
  u.variants ≠ [] ∧ (∀ field ∈ fields, u.DeclaresName field) ∧
    ∃ name, Value.text name ∈ fields ∧ ∀ v ∈ u.variants, name ∉ v.schema.fieldNames

/-- What cannot be filtered holds nothing. -/
theorem not_selectsLost_of_unfilterable (hu : u.Rooted) (h : u.isUnfilterable = true) :
    ¬ u.SelectsLost fields := by
  rintro ⟨hheld, -⟩
  obtain ⟨v, hv⟩ := List.exists_mem_of_ne_nil _ hheld
  obtain ⟨s, hs, -⟩ := hu v hv
  rcases isUnfilterable_iff.1 h with hgeneric | hnone
  · rw [variants_of_isGeneric hgeneric] at hv
    cases hv
  · rw [hnone] at hs
    cases hs

theorem not_selectsLost_of_none (h : u.declaredSelection? fields = none) :
    ¬ u.SelectsLost fields := by
  rintro ⟨-, hdeclared, -⟩
  obtain ⟨names, hnames⟩ := exists_declaredSelection? hdeclared
  rw [hnames] at h
  cases h

theorem selectsLost_iff_of_declared (h : ∀ name ∈ names, name ∈ u.declaredFieldNames) :
    u.SelectsLost (names.map .text) ↔
      u.variants ≠ [] ∧ ∃ name ∈ names, ∀ v ∈ u.variants, name ∉ v.schema.fieldNames := by
  have hdeclared : ∀ field ∈ names.map .text, u.DeclaresName field := by
    intro field hfield
    obtain ⟨name, hname, rfl⟩ := List.mem_map.1 hfield
    exact ⟨name, rfl, h name hname⟩
  constructor
  · rintro ⟨hheld, -, name, hname, hlost⟩
    obtain ⟨other, hother, heq⟩ := List.mem_map.1 hname
    obtain rfl := Value.text.inj heq
    exact ⟨hheld, other, hother, hlost⟩
  · rintro ⟨hheld, name, hname, hlost⟩
    exact ⟨hheld, hdeclared, name, List.mem_map_of_mem hname, hlost⟩

theorem mem_declaredFieldNames_mapped (hu : u.Originated) {name : String} :
    name ∈ (u.mapped (·.restrictedTo names)).declaredFieldNames ↔
      name ∈ names ∧ ∃ v ∈ u.variants, name ∈ v.schema.fieldNames := by
  rw [mem_declaredFieldNames, declaredSchemas_mapped]
  constructor
  · rintro ⟨s, hs, hname⟩
    obtain ⟨w, hw, rfl⟩ := List.mem_map.1 hs
    obtain ⟨v, hv, hsame⟩ := hu.exists_of_changed hw
    rw [← Schema.fieldNames_of_same hsame, Schema.mem_fieldNames_restrictedTo] at hname
    exact ⟨hname.1, v, hv, hname.2⟩
  · rintro ⟨hname, v, hv, hfield⟩
    obtain ⟨w, hw, hsame⟩ := hu.exists_changed hv (·.restrictedTo names)
    refine ⟨w.schema, List.mem_map_of_mem hw, ?_⟩
    rw [Schema.fieldNames_of_same hsame, Schema.mem_fieldNames_restrictedTo]
    exact ⟨hname, hfield⟩

/-- Where some schema that is left has each selected field, nothing is left to drop. -/
theorem select_mapped_coincides (hu : u.Reachable) (hplain : u.isGeneric = false)
    (hkept : u.variants ≠ [] → ∀ name ∈ names, ∃ v ∈ u.variants, name ∈ v.schema.fieldNames) :
    ((u.mapped (·.restrictedTo names)).select (names.map .text)).Coincides
      (u.mapped (·.restrictedTo names)) := by
  by_cases hunfilterable : (u.mapped (·.restrictedTo names)).isUnfilterable = true
  · rw [select_of_unfilterable hunfilterable]
    exact .refl _
  · have hopen := eq_false_of_ne_true hunfilterable
    have hheld := (isUnfilterable_mapped_eq_false_iff hu.originated hplain).1 hopen
    have hselection : (u.mapped (·.restrictedTo names)).declaredSelection? (names.map .text) =
        some names :=
      declaredSelection?_map_text fun name hname =>
        (mem_declaredFieldNames_mapped hu.originated).2 ⟨hname, hkept hheld name hname⟩
    have hrestriction : (u.mapped (·.restrictedTo names)).RestrictionOf u names :=
      .ofMapped hplain hu.rooted hu.originated names
    have hagain := hrestriction.mapped hu.rooted (hu.mapped _).originated fun name hname => hname
    have hagrees := hagain.agrees ((hu.mapped _).mapped _) hu hplain
    rw [select_of_some hopen hselection]
    refine ((hu.mapped _).mapped _).coincides (hu.mapped _) hagrees.isGeneric hagrees.hasOrigin
      fun s => ?_
    rw [declaresSchema_mapped, declaresSchema_mapped, Bool.eq_iff_iff]
    exact hagrees.contains s

/-- A field that no schema has any more is not declared behind a selection. -/
theorem select_mapped_of_lost (hu : u.Reachable) (hplain : u.isGeneric = false)
    (hheld : u.variants ≠ []) {name : String} (hname : name ∈ names)
    (hlost : ∀ v ∈ u.variants, name ∉ v.schema.fieldNames) :
    (u.mapped (·.restrictedTo names)).select (names.map .text) = generic := by
  have hopen : (u.mapped (·.restrictedTo names)).isUnfilterable = false :=
    (isUnfilterable_mapped_eq_false_iff hu.originated hplain).2 hheld
  cases hselection : (u.mapped (·.restrictedTo names)).declaredSelection? (names.map .text) with
  | none => exact select_of_none hopen hselection
  | some others =>
    obtain ⟨hsame, hall⟩ := declaredSelection?_eq_some hselection
    obtain rfl : names = others := List.map_injective_iff.2 (fun _ _ => Value.text.inj) hsame
    obtain ⟨-, v, hv, hfield⟩ :=
      (mem_declaredFieldNames_mapped hu.originated).1 (hall name hname)
    exact absurd hfield (hlost v hv)

/--
A selection made twice is the selection, in everything that can be asked of it, unless it selects a
field that filters have lost. Then the first selection is not generic, and the second one is.
-/
theorem project_project (hu : u.Reachable) {selection : Value}
    (hselection : selection.selection? = some fields) :
    ∃ once twice, u.project selection = .ok once ∧ once.project selection = .ok twice ∧
      (¬ u.SelectsLost fields → twice.Coincides once) ∧
      (u.SelectsLost fields → once.isGeneric = false ∧ twice = generic) := by
  refine ⟨_, _, project_eq hselection, project_eq hselection, ?_⟩
  by_cases hunfilterable : u.isUnfilterable = true
  · have hkept : ¬ u.SelectsLost fields := not_selectsLost_of_unfilterable hu.rooted hunfilterable
    rw [select_of_unfilterable hunfilterable, select_of_unfilterable hunfilterable]
    exact ⟨fun _ => .refl u, fun hlost => absurd hlost hkept⟩
  have hopen : u.isUnfilterable = false := eq_false_of_ne_true hunfilterable
  have hplain := eq_false_of_isUnfilterable_eq_false hopen
  cases hnames : u.declaredSelection? fields with
  | none =>
    rw [select_of_none hopen hnames, select_of_unfilterable rfl]
    exact ⟨fun _ => .refl generic, fun hlost => absurd hlost (not_selectsLost_of_none hnames)⟩
  | some names =>
    obtain ⟨rfl, hall⟩ := declaredSelection?_eq_some hnames
    rw [select_of_some hopen hnames, selectsLost_iff_of_declared hall]
    constructor
    · intro hkept
      refine select_mapped_coincides hu hplain fun hheld name hname => ?_
      by_contra hlost
      exact hkept ⟨hheld, name, hname, fun v hv hfield => hlost ⟨v, hv, hfield⟩⟩
    · rintro ⟨hheld, name, hname, hlost⟩
      exact ⟨(isGeneric_mapped _ u).trans hplain,
        select_mapped_of_lost hu hplain hheld hname hlost⟩

/-- Drafts have a title, so selecting it again changes nothing. -/
theorem project_project_board :
    let titles : Value := .sequence .list [.text "title"]
    ∃ drafts once twice, boardPosts.narrow hasDraft = .ok drafts ∧ drafts.Reachable ∧
      titles.selection? = some [.text "title"] ∧ drafts.project titles = .ok once ∧
      once.project titles = .ok twice ∧ ¬ drafts.SelectsLost [.text "title"] ∧
      twice.Coincides once ∧
      once.originsOf ⟨[("title", .primitive .string)]⟩ = ["posts/p2"] := by
  intro titles
  let drafts := boardPosts.filtered hasDraft.passedBy
  have hdrafts : drafts.Reachable := .filtered (.ofPairs _) _
  have hselection : titles.selection? = some [.text "title"] := rfl
  have htitled : drafts.variants.all (fun v => v.schema.fieldNames.contains "title") = true := by
    decide +kernel
  have hkept : ¬ drafts.SelectsLost [.text "title"] := by
    rintro ⟨hheld, -, name, hname, hlost⟩
    obtain ⟨v, hv⟩ := List.exists_mem_of_ne_nil _ hheld
    obtain rfl := Value.text.inj (List.mem_singleton.1 hname)
    exact hlost v hv (List.contains_iff_mem.1 (List.all_eq_true.1 htitled v hv))
  obtain ⟨once, twice, honce, htwice, hcoincides, -⟩ := project_project hdrafts hselection
  have horigins : once.originsOf ⟨[("title", .primitive .string)]⟩ = ["posts/p2"] := by
    rw [project_eq hselection] at honce
    obtain rfl := Except.ok.inj honce
    decide +kernel
  exact ⟨drafts, once, twice, narrow_boardPosts, hdrafts, hselection, honce, htwice, hkept,
    hcoincides hkept, horigins⟩

/--
Only posts that are no drafts may be pinned. The selection of that field from the drafts still knows
that it is declared and leaves an empty schema, from which the same selection makes any shape.
-/
theorem not_project_project :
    let pinned : Value := .sequence .list [.text "pinned"]
    boardPosts.Resolved ∧ hasDraft.OfValue ∧
      ∃ drafts once twice, boardPosts.narrow hasDraft = .ok drafts ∧
        drafts.project pinned = .ok once ∧ once.project pinned = .ok twice ∧
        once.isGeneric = false ∧ once.originsOf .empty = ["posts/p2"] ∧
        twice.isGeneric = true ∧ twice.same once = false := by
  intro pinned
  exact ⟨resolved_boardPosts, ofValue_hasDraft, _, _, _, narrow_boardPosts, project_eq rfl,
    project_eq rfl, by decide +kernel, by decide +kernel, by decide +kernel, by decide +kernel⟩

end SchemaUnion
end SchemaAtlas
