import SchemaAtlas.Proofs.Query.Matching

/-!
# Laws of union

Union is a commutative, associative and idempotent operation on unions of schemas, in the origins and
in the schemas before any filtering too. The union that declares nothing is its unit, and any shape
absorbs everything. Filters distribute over it wherever both parts tell alike what the field says.
-/
namespace SchemaAtlas

namespace SchemaUnion

variable {u v w : SchemaUnion} {s : Schema} {origin : String}

/-! ### What a union consists of -/

theorem generic_union (w : SchemaUnion) : generic.union w = generic := rfl

theorem union_generic (u : SchemaUnion) : u.union generic = generic := by
  rcases u with _ | ⟨_, _ | _⟩ <;> rfl

theorem isGeneric_union (u w : SchemaUnion) :
    (u.union w).isGeneric = (u.isGeneric || w.isGeneric) := by
  rcases u with _ | ⟨_, _ | _⟩ <;> rcases w with _ | ⟨_, _ | _⟩ <;> rfl

theorem isGeneric_union_eq_false :
    (u.union w).isGeneric = false ↔ u.isGeneric = false ∧ w.isGeneric = false := by
  rw [isGeneric_union, Bool.or_eq_false_iff]

theorem hasOrigin_union_iff :
    (u.union w).HasOrigin s origin ↔
      (u.isGeneric = false ∧ w.isGeneric = false) ∧
        (u.HasOrigin s origin ∨ w.HasOrigin s origin) := by
  by_cases hplain : (u.union w).isGeneric = false
  · rw [hasOrigin_union hplain, and_iff_right (isGeneric_union_eq_false.1 hplain)]
  · have hnone : ¬ (u.union w).HasOrigin s origin := fun h => hplain h.isGeneric
    rw [isGeneric_union_eq_false] at hplain
    exact iff_of_false hnone fun h => hplain h.1

theorem exists_mem_distinctBy_iff {schemas : List Schema} :
    (∃ d ∈ distinctBy Schema.same schemas, d.same s = true) ↔ ∃ d ∈ schemas, d.same s = true := by
  constructor
  · rintro ⟨d, hd, hsame⟩
    exact ⟨d, mem_of_mem_distinctBy hd, hsame⟩
  · rintro ⟨d, hd, hsame⟩
    obtain ⟨kept, hkept, hkeptSame⟩ := exists_mem_distinctBy Schema.same_refl hd
    exact ⟨kept, hkept, Schema.same_trans hkeptSame hsame⟩

theorem Reachable.contains_union (hu : u.Reachable) (hw : w.Reachable)
    (hplain : (u.union w).isGeneric = false) :
    (u.union w).contains s = true ↔ u.contains s = true ∨ w.contains s = true := by
  rw [(hu.union hw).contains_iff, hu.contains_iff, hw.contains_iff, ← exists_or]
  exact exists_congr fun origin => hasOrigin_union hplain

/-- Without the memory of a filter on either side, a union declares what it holds. -/
theorem Reachable.declaresSchema_union (hu : u.Reachable) (hw : w.Reachable)
    (hplain : (u.union w).isGeneric = false) :
    (u.union w).declaresSchema s = true ↔ u.declaresSchema s = true ∨ w.declaresSchema s = true := by
  obtain ⟨hu', hw'⟩ := isGeneric_union_eq_false.1 hplain
  rcases u with _ | ⟨vs, d⟩
  case generic => cases hu'
  rcases w with _ | ⟨ws, e⟩
  case generic => cases hw'
  by_cases hfresh : d = none ∧ e = none
  · obtain ⟨rfl, rfl⟩ := hfresh
    have hcontains := hu.contains_union hw (s := s) hplain
    simp only [contains, schemas] at hcontains
    exact hcontains
  · have hdeclared : ((candidates vs d).union (candidates ws e)).declaredSchemas =
        distinctBy Schema.same
          ((candidates vs d).declaredSchemas ++ (candidates ws e).declaredSchemas) := by
      cases d <;> cases e <;> first | rfl | exact absurd ⟨rfl, rfl⟩ hfresh
    simp only [declaresSchema_iff]
    rw [hdeclared, exists_mem_distinctBy_iff]
    simp only [List.mem_append, or_and_right, exists_or]

theorem Reachable.declaresSchema_union_iff (hu : u.Reachable) (hw : w.Reachable) :
    (u.union w).declaresSchema s = true ↔
      (u.isGeneric = false ∧ w.isGeneric = false) ∧
        (u.declaresSchema s = true ∨ w.declaresSchema s = true) := by
  by_cases hplain : (u.union w).isGeneric = false
  · rw [hu.declaresSchema_union hw hplain, and_iff_right (isGeneric_union_eq_false.1 hplain)]
  · have hnone : ¬ (u.union w).declaresSchema s = true :=
      fun h => hplain (isGeneric_eq_false_of_declaresSchema h)
    rw [isGeneric_union_eq_false] at hplain
    exact iff_of_false hnone fun h => hplain h.1

/-! ### Laws -/

/-- What is made of two unions depends on what can be asked of them alone. -/
theorem Coincides.union {u' w' : SchemaUnion} (huu' : u.Coincides u') (hww' : w.Coincides w')
    (hu : u.Reachable) (hu' : u'.Reachable) (hw : w.Reachable) (hw' : w'.Reachable) :
    (u.union w).Coincides (u'.union w') := by
  refine (hu.union hw).coincides (hu'.union hw') ?_ (fun s origin => ?_) fun s => ?_
  · rw [isGeneric_union, isGeneric_union, huu'.isGeneric, hww'.isGeneric]
  · rw [hasOrigin_union_iff, hasOrigin_union_iff, huu'.isGeneric, hww'.isGeneric,
      huu'.hasOrigin_iff hu.wellFormed hu'.wellFormed,
      hww'.hasOrigin_iff hw.wellFormed hw'.wellFormed]
  · rw [Bool.eq_iff_iff, hu.declaresSchema_union_iff hw, hu'.declaresSchema_union_iff hw',
      huu'.isGeneric, hww'.isGeneric, huu'.declaresSchema, hww'.declaresSchema]

theorem Reachable.union_comm (hu : u.Reachable) (hw : w.Reachable) :
    (u.union w).Coincides (w.union u) := by
  refine (hu.union hw).coincides (hw.union hu) ?_ (fun s origin => ?_) fun s => ?_
  · rw [isGeneric_union, isGeneric_union, Bool.or_comm]
  · rw [hasOrigin_union_iff, hasOrigin_union_iff]
    tauto
  · rw [Bool.eq_iff_iff, hu.declaresSchema_union_iff hw, hw.declaresSchema_union_iff hu]
    tauto

theorem Reachable.union_assoc (hu : u.Reachable) (hv : v.Reachable) (hw : w.Reachable) :
    ((u.union v).union w).Coincides (u.union (v.union w)) := by
  have huv := hu.union hv
  have hvw := hv.union hw
  refine (huv.union hw).coincides (hu.union hvw) ?_ (fun s origin => ?_) fun s => ?_
  · simp only [isGeneric_union, Bool.or_assoc]
  · simp only [hasOrigin_union_iff, isGeneric_union_eq_false]
    tauto
  · rw [Bool.eq_iff_iff, huv.declaresSchema_union_iff hw, hu.declaresSchema_union_iff hv,
      hu.declaresSchema_union_iff hvw, hv.declaresSchema_union_iff hw]
    simp only [isGeneric_union_eq_false]
    tauto

theorem Reachable.union_self (hu : u.Reachable) : (u.union u).Coincides u := by
  refine (hu.union hu).coincides hu ?_ (fun s origin => ?_) fun s => ?_
  · rw [isGeneric_union, Bool.or_self]
  · rw [hasOrigin_union_iff, and_self, or_self]
    exact and_iff_right_of_imp HasOrigin.isGeneric
  · rw [Bool.eq_iff_iff, hu.declaresSchema_union_iff hu, and_self, or_self]
    exact and_iff_right_of_imp isGeneric_eq_false_of_declaresSchema

theorem Reachable.union_empty (hu : u.Reachable) : (u.union .empty).Coincides u := by
  have hplain : SchemaUnion.empty.isGeneric = false := rfl
  have hundeclared : ∀ s, SchemaUnion.empty.declaresSchema s = false := fun s => rfl
  have hunheld : ∀ s origin, ¬ SchemaUnion.empty.HasOrigin s origin := by
    rintro s origin ⟨v, hv, -⟩
    cases hv
  refine (hu.union .empty).coincides hu ?_ (fun s origin => ?_) fun s => ?_
  · rw [isGeneric_union, hplain, Bool.or_false]
  · rw [hasOrigin_union_iff, or_iff_left (hunheld s origin), and_iff_left hplain]
    exact and_iff_right_of_imp HasOrigin.isGeneric
  · rw [Bool.eq_iff_iff, hu.declaresSchema_union_iff .empty, hundeclared]
    simp only [hplain, and_true, Bool.false_eq_true, or_false]
    exact and_iff_right_of_imp isGeneric_eq_false_of_declaresSchema

/-! ### Unions of pairs -/

/-- Every pair of one list has the same schema and the same origin as one of the other, both ways. -/
def SamePairs (xs ys : List (Schema × String)) : Prop :=
  (∀ x ∈ xs, ∃ y ∈ ys, x.1.same y.1 = true ∧ x.2 = y.2) ∧
    ∀ y ∈ ys, ∃ x ∈ xs, x.1.same y.1 = true ∧ x.2 = y.2

/-- Unions of pairs were not filtered, so what they hold is all there is to compare. -/
theorem coincides_ofPairs {pairs : List (Schema × String)} (hw : w.Reachable)
    (hplain : w.isGeneric = false) (hfresh : ∀ s, w.declaresSchema s = w.contains s)
    (horigin : ∀ s origin, (ofPairs pairs).HasOrigin s origin ↔ w.HasOrigin s origin) :
    (ofPairs pairs).Coincides w := by
  have hpairs : (ofPairs pairs).Reachable := .ofPairs pairs
  have hagrees : (ofPairs pairs).Agrees w := hpairs.agrees hw hplain.symm horigin
  refine hpairs.coincides hw hplain.symm horigin fun s => ?_
  rw [hfresh, Bool.eq_iff_iff]
  exact hagrees.contains s

theorem ofPairs_append (xs ys : List (Schema × String)) :
    (ofPairs (xs ++ ys)).Coincides ((ofPairs xs).union (ofPairs ys)) := by
  have hxs : (ofPairs xs).Reachable := .ofPairs xs
  refine coincides_ofPairs (hxs.union (.ofPairs ys)) rfl (fun s => rfl) fun s origin => ?_
  rw [hasOrigin_union rfl, hasOrigin_ofPairs, hasOrigin_ofPairs, hasOrigin_ofPairs, ← exists_or]
  simp only [List.mem_append, or_and_right]

theorem ofPairs_of_samePairs {xs ys : List (Schema × String)} (h : SamePairs xs ys) :
    (ofPairs xs).Coincides (ofPairs ys) := by
  refine coincides_ofPairs (.ofPairs ys) rfl (fun s => rfl) fun s origin => ?_
  rw [hasOrigin_ofPairs, hasOrigin_ofPairs]
  constructor
  · rintro ⟨schema, hpair, hsame⟩
    obtain ⟨⟨other, _⟩, hother, hschemas, rfl⟩ := h.1 _ hpair
    exact ⟨other, hother, Schema.same_trans (Schema.same_symm hschemas) hsame⟩
  · rintro ⟨schema, hpair, hsame⟩
    obtain ⟨⟨other, _⟩, hother, hschemas, rfl⟩ := h.2 _ hpair
    exact ⟨other, hother, Schema.same_trans hschemas hsame⟩

/--
Union is commutative, associative and idempotent with a unit and an absorbing element, and a union of
pairs is the union of those of its parts: it depends on the set of its pairs alone. Nothing that can
be asked of the unions tells the two sides apart.
-/
theorem union_laws (hu : u.Reachable) (hv : v.Reachable) (hw : w.Reachable) :
    (u.union v).Coincides (v.union u) ∧
      ((u.union v).union w).Coincides (u.union (v.union w)) ∧
      (u.union u).Coincides u ∧
      (u.union .empty).Coincides u ∧
      u.union .generic = .generic ∧ generic.union u = .generic ∧
      ∀ xs ys, (ofPairs (xs ++ ys)).Coincides ((ofPairs xs).union (ofPairs ys)) ∧
        (SamePairs xs ys → (ofPairs xs).Coincides (ofPairs ys)) :=
  ⟨hu.union_comm hv, hu.union_assoc hv hw, hu.union_self, hu.union_empty, union_generic u,
    generic_union u, fun xs ys => ⟨ofPairs_append xs ys, ofPairs_of_samePairs⟩⟩

/-- Drafts that a filter left and drafts of others have their origins together, in either order. -/
theorem union_laws_drafts :
    let post : Schema := ⟨[("title", .primitive .string)]⟩
    let draft : Schema := ⟨[("draft", .primitive .boolean), ("title", .primitive .string)]⟩
    let drafts := (ofPairs [(post, "posts/p1"), (draft, "posts/p2")]).filtered fun s => s.same draft
    let others := ofPairs [(draft, "users/u1")]
    drafts.Reachable ∧ others.Reachable ∧
      (drafts.union others).originsOf draft = ["posts/p2", "users/u1"] ∧
      (drafts.union others).contains post = false ∧
      (drafts.union others).declaresSchema post = true ∧
      (drafts.union others).Coincides (others.union drafts) ∧
      ((drafts.union others).union drafts).Coincides (drafts.union (others.union drafts)) ∧
      SamePairs [(post, "a"), (draft, "b"), (post, "a")] [(draft, "b"), (post, "a")] ∧
      (ofPairs [(post, "a"), (draft, "b"), (post, "a")]).Coincides
        (ofPairs [(draft, "b"), (post, "a")]) := by
  intro post draft drafts others
  have hdrafts : drafts.Reachable := .filtered (.ofPairs _) _
  have hothers : others.Reachable := .ofPairs _
  obtain ⟨hcomm, hassoc, -, -, -, -, hpairs⟩ := union_laws hdrafts hothers hdrafts
  have hpost : post.same post = true := post.same_refl
  have hdraft : draft.same draft = true := draft.same_refl
  have hsame : SamePairs [(post, "a"), (draft, "b"), (post, "a")] [(draft, "b"), (post, "a")] := by
    constructor <;> simp [hpost, hdraft]
  exact ⟨hdrafts, hothers, by decide +kernel, by decide +kernel, by decide +kernel, hcomm, hassoc,
    hsame, (hpairs _ _).2 hsame⟩

/-! ### Filters -/

/-- A filter that does not tell equal schemas apart is applied to both parts alike. -/
theorem Reachable.filtered_union (hu : u.Reachable) (hw : w.Reachable) {keep : Schema → Bool}
    (hkeep : ∀ a b : Schema, a.same b = true → keep a = keep b) :
    ((u.union w).filtered keep).Coincides ((u.filtered keep).union (w.filtered keep)) := by
  have hu' := hu.filtered keep
  have hw' := hw.filtered keep
  refine ((hu.union hw).filtered keep).coincides (hu'.union hw') ?_ (fun s origin => ?_) fun s => ?_
  · simp only [isGeneric_filtered, isGeneric_union]
  · rw [hasOrigin_filtered hkeep, hasOrigin_union_iff, hasOrigin_union_iff,
      hasOrigin_filtered hkeep, hasOrigin_filtered hkeep, isGeneric_filtered, isGeneric_filtered]
    tauto
  · rw [declaresSchema_filtered, Bool.eq_iff_iff, hu.declaresSchema_union_iff hw,
      hu'.declaresSchema_union_iff hw']
    simp only [isGeneric_filtered, declaresSchema_filtered]

theorem declaredSchemas_eq_nil_iff : u.declaredSchemas = [] ↔ ∀ s, u.declaresSchema s = false := by
  constructor
  · intro h s
    rw [declaresSchema, h, List.any_nil]
  · intro h
    refine List.eq_nil_iff_forall_not_mem.2 fun d hd => ?_
    have hdeclared : u.declaresSchema d = true := declaresSchema_iff.2 ⟨d, hd, d.same_refl⟩
    rw [h d] at hdeclared
    cases hdeclared

theorem not_declares_of_nil {field : Value} (h : u.declaredSchemas = []) : ¬ u.Declares field := by
  rintro ⟨_, _, s, hs, _⟩
  rw [h] at hs
  cases hs

section Parts

variable (hu : u.Reachable) (hw : w.Reachable) (hplainU : u.isGeneric = false)
  (hplainW : w.isGeneric = false)

include hu hw hplainU hplainW

theorem Reachable.declares_union {field : Value} :
    (u.union w).Declares field ↔ u.Declares field ∨ w.Declares field := by
  have hplain := isGeneric_union_eq_false.2 ⟨hplainU, hplainW⟩
  simp only [declares_iff, hu.declaresSchema_union hw hplain]
  constructor
  · rintro ⟨name, hname, s, hs | hs, hfield⟩
    · exact .inl ⟨name, hname, s, hs, hfield⟩
    · exact .inr ⟨name, hname, s, hs, hfield⟩
  · rintro (⟨name, hname, s, hs, hfield⟩ | ⟨name, hname, s, hs, hfield⟩)
    · exact ⟨name, hname, s, .inl hs, hfield⟩
    · exact ⟨name, hname, s, .inr hs, hfield⟩

theorem Reachable.declaredSchemas_union_eq_nil :
    (u.union w).declaredSchemas = [] ↔ u.declaredSchemas = [] ∧ w.declaredSchemas = [] := by
  have hplain := isGeneric_union_eq_false.2 ⟨hplainU, hplainW⟩
  have hunion : ∀ s, (u.union w).declaresSchema s = false ↔
      u.declaresSchema s = false ∧ w.declaresSchema s = false := by
    intro s
    simp only [← Bool.not_eq_true, hu.declaresSchema_union hw hplain, not_or]
  simp only [declaredSchemas_eq_nil_iff, hunion, forall_and]

end Parts

/-- What declares nothing holds nothing, so a filter has nothing to drop. -/
theorem Reachable.coincides_filtered (hu : u.Reachable) (h : u.declaredSchemas = [])
    (keep : Schema → Bool) : u.Coincides (u.filtered keep) := by
  have hunheld : u.variants = [] := by
    refine List.eq_nil_iff_forall_not_mem.2 fun v hv => ?_
    obtain ⟨s, hs, -⟩ := hu.rooted v hv
    rw [h] at hs
    cases hs
  refine hu.coincides (hu.filtered keep) (isGeneric_filtered keep u).symm (fun s origin => ?_)
    fun s => (declaresSchema_filtered keep u s).symm
  rw [HasOrigin, HasOrigin, variants_filtered, hunheld, List.filter_nil]

/-- A union settles a field that it declares, and every field if it declares nothing at all. -/
def Settles (u : SchemaUnion) (field : Value) : Prop := u.Declares field ∨ u.declaredSchemas = []

/-- Where the field is settled, narrowing is filtering. -/
theorem Reachable.exists_narrow_coincides (hu : u.Reachable) (hplain : u.isGeneric = false)
    {p : Predicate} (he : p.Evaluable) (hp : u.Settles p.field) :
    ∃ a, u.narrow p = .ok a ∧ a.Reachable ∧ a.Coincides (u.filtered p.passedBy) := by
  by_cases hdeclared : u.declaredSchemas = []
  · have hunfilterable : u.isUnfilterable = true := isUnfilterable_iff.2 (.inr hdeclared)
    exact ⟨u, narrow_of_unfilterable hunfilterable p, hu, hu.coincides_filtered hdeclared _⟩
  · have hopen := isUnfilterable_eq_false_iff.2 ⟨hplain, hdeclared⟩
    have hfield : u.Declares p.field := hp.resolve_right hdeclared
    exact ⟨_, narrow_of_declares hopen he hfield, hu.filtered _, .refl _⟩

/-- A union that declares other fields only is widened. -/
theorem narrow_of_not_settles (hplain : u.isGeneric = false) {p : Predicate}
    (hp : ¬ u.Settles p.field) : u.narrow p = .ok generic := by
  obtain ⟨hfield, hdeclared⟩ := not_or.1 hp
  exact narrow_of_not_declares (isUnfilterable_eq_false_iff.2 ⟨hplain, hdeclared⟩) hfield

/-- What one part declares does not settle a field for the other, so the parts have to tell alike. -/
theorem Reachable.settles_union (hu : u.Reachable) (hw : w.Reachable)
    (hplainU : u.isGeneric = false) (hplainW : w.isGeneric = false) {field : Value}
    (hfield : (u.Declares field ↔ w.Declares field) ∨ u.declaredSchemas = [] ∨
      w.declaredSchemas = []) :
    (u.union w).Settles field ↔ u.Settles field ∧ w.Settles field := by
  have hdeclares : (u.union w).Declares field ↔ u.Declares field ∨ w.Declares field :=
    hu.declares_union hw hplainU hplainW
  have hnil := hu.declaredSchemas_union_eq_nil hw hplainU hplainW
  rw [Settles, hdeclares, hnil, Settles, Settles]
  rcases hfield with hiff | hnone | hnone
  · rw [hiff, or_self, or_and_left]
  · have hnot : ¬ u.Declares field := not_declares_of_nil hnone
    simp [hnot, hnone]
  · have hnot : ¬ w.Declares field := not_declares_of_nil hnone
    simp [hnot, hnone]

/--
A predicate on values narrows a union by narrowing its parts, if its field is declared in both of them
or in neither, or one of them declares nothing at all. What was there before any filtering is the same
too.
-/
theorem narrow_union (hu : u.Reachable) (hv : v.Reachable) (hplainU : u.isGeneric = false)
    (hplainV : v.isGeneric = false) {p : Predicate} (hp : p.OfValue)
    (hfield : (u.Declares p.field ↔ v.Declares p.field) ∨ u.declaredSchemas = [] ∨
      v.declaredSchemas = []) :
    ∃ a b c, u.narrow p = .ok a ∧ v.narrow p = .ok b ∧ (u.union v).narrow p = .ok c ∧
      c.Coincides (a.union b) := by
  have he := hp.evaluable
  have hplain := isGeneric_union_eq_false.2 ⟨hplainU, hplainV⟩
  have hsettles := hu.settles_union hv hplainU hplainV hfield
  by_cases hparts : u.Settles p.field ∧ v.Settles p.field
  · obtain ⟨a, ha, hra, hca⟩ := hu.exists_narrow_coincides hplainU he hparts.1
    obtain ⟨b, hb, hrb, hcb⟩ := hv.exists_narrow_coincides hplainV he hparts.2
    obtain ⟨c, hc, -, hcc⟩ :=
      (hu.union hv).exists_narrow_coincides hplain he (hsettles.2 hparts)
    have hfiltered : ((u.union v).filtered p.passedBy).Coincides
        ((u.filtered p.passedBy).union (v.filtered p.passedBy)) :=
      hu.filtered_union hv fun _ _ => p.passedBy_of_same_schema
    have hmerged : (a.union b).Coincides
        ((u.filtered p.passedBy).union (v.filtered p.passedBy)) :=
      hca.union hcb hra (hu.filtered _) hrb (hv.filtered _)
    exact ⟨a, b, c, ha, hb, hc, hcc.trans (hfiltered.trans hmerged.symm)⟩
  · -- a part that declares other fields only is widened, and so is the union
    obtain ⟨a, ha⟩ := u.exists_narrow he
    obtain ⟨b, hb⟩ := v.exists_narrow he
    have hwidened : (u.union v).narrow p = .ok generic :=
      narrow_of_not_settles hplain (mt hsettles.1 hparts)
    refine ⟨a, b, generic, ha, hb, hwidened, ?_⟩
    rcases not_and_or.1 hparts with h | h
    · rw [narrow_of_not_settles hplainU h] at ha
      obtain rfl := Except.ok.inj ha
      rw [generic_union]
      exact .refl _
    · rw [narrow_of_not_settles hplainV h] at hb
      obtain rfl := Except.ok.inj hb
      rw [union_generic]
      exact .refl _

/-- A filter on drafts leaves those of a part that was filtered before and those of another one. -/
theorem narrow_union_drafts :
    let post : Schema := ⟨[("title", .primitive .string)]⟩
    let draft : Schema := ⟨[("draft", .primitive .boolean), ("title", .primitive .string)]⟩
    let titled := (ofPairs [(post, "posts/p1"), (draft, "posts/p2")]).filtered (·.hasField "title")
    let others := ofPairs [(draft, "users/u1"), (post, "guests/g1")]
    let p : Predicate := ⟨.text "draft", .hasField, .nothing⟩
    titled.Reachable ∧ others.Reachable ∧ p.OfValue ∧
      titled.Declares p.field ∧ others.Declares p.field ∧
      ∃ a b c, titled.narrow p = .ok a ∧ others.narrow p = .ok b ∧
        (titled.union others).narrow p = .ok c ∧ c.Coincides (a.union b) ∧
        c.originsOf draft = ["posts/p2", "users/u1"] ∧ c.contains post = false := by
  intro post draft titled others p
  have htitled : titled.Reachable := .filtered (.ofPairs _) _
  have hothers : others.Reachable := .ofPairs _
  have hp : p.OfValue := ⟨.text "draft", .hasField, .null, rfl⟩
  have htitledField : titled.Declares p.field :=
    declares_iff.2 ⟨"draft", rfl, draft, by decide +kernel, rfl⟩
  have hothersField : others.Declares p.field :=
    declares_iff.2 ⟨"draft", rfl, draft, by decide +kernel, rfl⟩
  obtain ⟨a, b, c, ha, hb, hc, hcoincides⟩ :=
    narrow_union htitled hothers rfl rfl hp (.inl (iff_of_true htitledField hothersField))
  have hdeclares := (htitled.declares_union hothers rfl rfl).2 (.inl htitledField)
  have hopen : (titled.union others).isUnfilterable = false := by decide +kernel
  have hfiltered := narrow_of_declares hopen hp.evaluable hdeclares
  obtain rfl := Except.ok.inj (hc.symm.trans hfiltered)
  exact ⟨htitled, hothers, hp, htitledField, hothersField, a, b, _, ha, hb, hc, hcoincides,
    by decide +kernel, by decide +kernel⟩

end SchemaUnion
end SchemaAtlas
