import SchemaAtlas.Proofs.Path

/-!
# Paths as texts and as lists

A path may be written as one text or as the list of its segments. The two are inverse to each other:
a text without an empty segment gives the list, a list of names gives the text, and either way the
path is the same. Only a list can have a separator inside a segment, which is never allowed.
-/
namespace SchemaAtlas

/-- The errors about what cannot be split into segments at all. -/
def PathError.isMalformed : PathError → Bool
  | kindMismatch _ _ | undeclared _ | noGenericDocument _ => false
  | _ => true

namespace Path

variable {allowWildcards : Bool} {texts : List String} {s : String} {p : Path}

/-- Nothing stands before the first separator, behind the last one or between two of them. -/
def HasEmptySegment (s : String) : Prop :=
  s = "" ∨ s.toList.head? = some pathSeparator ∨ s.toList.getLast? = some pathSeparator ∨
    [pathSeparator, pathSeparator] <:+: s.toList

/-- What is wrong with a list of texts, and how it is reported. -/
inductive SegmentFault : List String → PathError → Prop
  | noSegments : SegmentFault [] .noSegments
  /-- The first segment with a separator in it comes before every empty one. -/
  | separatorInSegment (before after : List String) (segment : String)
      (hbefore : ∀ text ∈ before, hasSeparator text = false)
      (hsegment : hasSeparator segment = true) :
      SegmentFault (before ++ segment :: after) (.separatorInSegment segment)
  | emptySegment (texts : List String) (hseparators : ∀ text ∈ texts, hasSeparator text = false)
      (hempty : "" ∈ texts) : SegmentFault texts (.emptySegment (joinPath texts))

theorem SegmentFault.isMalformed {e : PathError} (h : SegmentFault texts e) :
    e.isMalformed = true := by
  cases h <;> rfl

theorem hasSeparator_eq_false_iff : hasSeparator s = false ↔ pathSeparator ∉ s.toList := by
  rw [hasSeparator, ← Bool.not_eq_true, List.contains_iff_mem]

/-! ### Texts -/

theorem hasEmptySegment_iff : HasEmptySegment s ↔ "" ∈ Text.split pathSeparator s := by
  have hempty : "" ∈ Text.split pathSeparator s ↔ [] ∈ Text.splitAt pathSeparator s.toList := by
    rw [Text.split, List.mem_map]
    constructor
    · rintro ⟨cs, hcs, hnil⟩
      rwa [String.ofList_eq_empty_iff.1 hnil] at hcs
    · intro h
      exact ⟨[], h, rfl⟩
  have hhead : s.toList.head? = some pathSeparator ↔ ∃ ds, s.toList = pathSeparator :: ds :=
    List.head?_eq_some_iff
  have hlast : s.toList.getLast? = some pathSeparator ↔ ∃ ds, s.toList = ds ++ [pathSeparator] :=
    List.getLast?_eq_some_iff
  have hdoubled : [pathSeparator, pathSeparator] <:+: s.toList ↔
      ∃ ds es, s.toList = ds ++ pathSeparator :: pathSeparator :: es := by
    simp [List.IsInfix, eq_comm]
  rw [hempty, Text.nil_mem_splitAt_iff, String.toList_eq_nil_iff, HasEmptySegment, hhead, hlast,
    hdoubled]

theorem ofText_eq_error (h : HasEmptySegment s) :
    ofText allowWildcards s = .error (.emptySegment s) := by
  have hempty := hasEmptySegment_iff.1 h
  have hne : (Text.split pathSeparator s).isEmpty = false :=
    List.isEmpty_eq_false_iff.2 (List.ne_nil_of_mem hempty)
  have hany : (Text.split pathSeparator s).any (·.isEmpty) = true :=
    List.any_eq_true.2 ⟨"", hempty, rfl⟩
  have hjoin : joinPath (Text.split pathSeparator s) = s := Text.joinWith_split pathSeparator s
  rw [ofText, ofTexts, hne, hany, hjoin]
  rfl

theorem isName_of_mem_split {part : String} (h : ¬ HasEmptySegment s)
    (hpart : part ∈ Text.split pathSeparator s) : IsName part := by
  refine isName_iff.2 ⟨?_, Text.not_mem_of_mem_split hpart⟩
  rintro rfl
  exact h (hasEmptySegment_iff.2 hpart)

theorem texts_map_ofText (texts : List String) :
    Path.texts ⟨texts.map (Segment.ofText allowWildcards)⟩ = texts := by
  have htext (text : String) : (Segment.ofText allowWildcards text).text = text := by
    unfold Segment.ofText
    split <;> rfl
  rw [Path.texts, List.map_map]
  conv_rhs => rw [← List.map_id texts]
  exact List.map_congr_left fun text _ => htext text

theorem ofText_eq_ok (h : ¬ HasEmptySegment s) :
    ofText allowWildcards s =
      .ok ⟨(Text.split pathSeparator s).map (Segment.ofText allowWildcards)⟩ := by
  have hne : Text.split pathSeparator s ≠ [] :=
    mt List.map_eq_nil_iff.1 (Text.splitAt_ne_nil pathSeparator s.toList)
  exact ofText_eq_ok_iff.2 ⟨hne, fun part hpart => isName_of_mem_split h hpart, rfl⟩

/-! ### Lists -/

theorem ofSegments_names (hne : texts ≠ []) (hnames : ∀ text ∈ texts, IsName text) :
    ofSegments allowWildcards (texts.map .text) =
      .ok ⟨texts.map (Segment.ofText allowWildcards)⟩ :=
  ofSegments_eq_ok_iff.2 ⟨texts, rfl, hne, hnames, rfl⟩

theorem split_joinPath (hne : texts ≠ []) (hnames : ∀ text ∈ texts, IsName text) :
    Text.split pathSeparator (joinPath texts) = texts :=
  Text.split_joinWith hne fun text htext => (isName_iff.1 (hnames text htext)).2

theorem ofText_joinPath (hne : texts ≠ []) (hnames : ∀ text ∈ texts, IsName text) :
    ofText allowWildcards (joinPath texts) =
      .ok ⟨texts.map (Segment.ofText allowWildcards)⟩ := by
  have hsplit := split_joinPath hne hnames
  exact ofText_eq_ok_iff.2 ⟨by rwa [hsplit], by rwa [hsplit], by rw [hsplit]⟩

/-- The first segment with a separator in it is the one that is reported. -/
theorem segmentTexts_cases (texts : List String) :
    (∀ text ∈ texts, hasSeparator text = false) ∧
        segmentTexts (texts.map .text) = .ok texts ∨
      ∃ before segment after, texts = before ++ segment :: after ∧
        (∀ text ∈ before, hasSeparator text = false) ∧ hasSeparator segment = true ∧
        segmentTexts (texts.map .text) = .error (.separatorInSegment segment) := by
  induction texts with
  | nil => exact .inl ⟨fun text h => absurd h List.not_mem_nil, rfl⟩
  | cons first rest ih =>
    rw [List.map_cons, segmentTexts]
    cases hfirst : hasSeparator first with
    | true => exact .inr ⟨[], first, rest, rfl, by simp, hfirst, rfl⟩
    | false =>
      rcases ih with ⟨hrest, heq⟩ | ⟨before, segment, after, rfl, hbefore, hsegment, heq⟩
      · exact .inl ⟨List.forall_mem_cons.2 ⟨hfirst, hrest⟩, by rw [heq]; rfl⟩
      · refine .inr ⟨first :: before, segment, after, rfl, ?_, hsegment, by rw [heq]; rfl⟩
        exact List.forall_mem_cons.2 ⟨hfirst, hbefore⟩

/-- A list that is not a list of names is refused for the first fault that is looked for. -/
theorem ofSegments_eq_error (h : ¬ (texts ≠ [] ∧ ∀ text ∈ texts, IsName text)) :
    ∃ e, ofSegments allowWildcards (texts.map .text) = .error e ∧ SegmentFault texts e := by
  rcases segmentTexts_cases texts with ⟨hseparators, heq⟩ | ⟨before, segment, after, hfault⟩
  · rw [ofSegments, heq]
    show ∃ e, ofTexts allowWildcards texts = .error e ∧ SegmentFault texts e
    cases texts with
    | nil => exact ⟨_, rfl, .noSegments⟩
    | cons first rest =>
      have hempty : "" ∈ first :: rest := by
        by_contra hnone
        refine h ⟨List.cons_ne_nil first rest, fun text htext => isName_iff.2 ⟨?_, ?_⟩⟩
        · rintro rfl
          exact hnone htext
        · exact hasSeparator_eq_false_iff.1 (hseparators text htext)
      have hany : (first :: rest).any (·.isEmpty) = true := List.any_eq_true.2 ⟨"", hempty, rfl⟩
      refine ⟨_, ?_, .emptySegment _ hseparators hempty⟩
      rw [ofTexts, if_neg (by simp), if_pos hany]
  · obtain ⟨rfl, hbefore, hsegment, heq⟩ := hfault
    refine ⟨_, ?_, .separatorInSegment before after segment hbefore hsegment⟩
    rw [ofSegments, heq]
    rfl

/--
A text is a path unless it has an empty segment, and the list of its segments is the same path. A
list of texts is a path if it is a list of names, at least one, and the joined text is the same path.
-/
theorem text_and_segments_inverse (allowWildcards : Bool) (kind : SequenceKind) :
    (∀ s : String,
      (HasEmptySegment s → ofValue allowWildcards (.text s) = .error (.emptySegment s)) ∧
      (¬ HasEmptySegment s → ∃ p, ofValue allowWildcards (.text s) = .ok p ∧ p.text = s ∧
        ofValue allowWildcards (.sequence kind (p.texts.map .text)) = .ok p)) ∧
    ∀ texts : List String,
      let names := texts ≠ [] ∧ ∀ text ∈ texts, text ≠ "" ∧ pathSeparator ∉ text.toList
      let segments := Value.sequence kind (texts.map .text)
      (names → ∃ p, ofValue allowWildcards segments = .ok p ∧ p.texts = texts ∧
        ofValue allowWildcards (.text (joinPath texts)) = .ok p ∧
        joinSegments segments = .ok (joinPath texts)) ∧
      (¬ names → ∃ e, ofValue allowWildcards segments = .error e ∧ e.isMalformed = true ∧
        SegmentFault texts e) := by
  refine ⟨fun s => ⟨fun h => ofText_eq_error h, fun h => ?_⟩, fun texts => ⟨fun h => ?_, fun h => ?_⟩⟩
  · have hne : Text.split pathSeparator s ≠ [] :=
      mt List.map_eq_nil_iff.1 (Text.splitAt_ne_nil pathSeparator s.toList)
    refine ⟨_, ofText_eq_ok h, ?_, ?_⟩
    · rw [Path.text, texts_map_ofText]
      exact Text.joinWith_split pathSeparator s
    · rw [texts_map_ofText]
      exact ofSegments_names hne fun part hpart => isName_of_mem_split h hpart
  · obtain ⟨hne, hparts⟩ := h
    have hnames : ∀ text ∈ texts, IsName text := fun text htext => isName_iff.2 (hparts text htext)
    have hjoined : joinSegments (.sequence kind (texts.map .text)) = .ok (joinPath texts) := by
      show (ofSegments false (texts.map .text)).map _ = _
      rw [ofSegments_names hne hnames]
      show Except.ok (joinPath (Path.texts _)) = _
      rw [texts_map_ofText]
    exact ⟨_, ofSegments_names hne hnames, texts_map_ofText texts, ofText_joinPath hne hnames, hjoined⟩
  · have hnames : ¬ (texts ≠ [] ∧ ∀ text ∈ texts, IsName text) := by
      simpa only [isName_iff] using h
    obtain ⟨e, heq, hfault⟩ := ofSegments_eq_error hnames
    exact ⟨e, heq, hfault.isMalformed, hfault⟩

end Path
end SchemaAtlas
