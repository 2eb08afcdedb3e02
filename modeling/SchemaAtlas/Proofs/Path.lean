import SchemaAtlas.Proofs.Except
import SchemaAtlas.Proofs.Text.Splitting
import SchemaAtlas.Proofs.Tree.Names
import SchemaAtlas.Value.PathInput

/-!
# Checked paths

What the checks of a path leave: at least one segment, each of which could be the name of a node.
Where no wildcards are allowed, a path is nothing but a row of names, those in braces among them.
-/
namespace SchemaAtlas

theorem isName_iff {text : String} : IsName text ↔ text ≠ "" ∧ pathSeparator ∉ text.toList := by
  rw [IsName, Path.hasSeparator, ← Bool.not_eq_true, ← Bool.not_eq_true, String.isEmpty_iff,
    List.contains_iff_mem]

instance (text : String) : Decidable (IsName text) := inferInstanceAs (Decidable (_ ∧ _))

/-- The kind of the nodes below those of a kind. -/
def PathKind.other : PathKind → PathKind
  | collection => document
  | document => collection

namespace Path

variable {allowWildcards : Bool} {texts : List String} {p : Path}

/-- The path of literal names. -/
def ofNames (names : List String) : Path := ⟨names.map fun name => ⟨name, .literal⟩⟩

@[simp] theorem texts_ofNames (names : List String) : (ofNames names).texts = names := by
  rw [Path.texts, ofNames, List.map_map]
  exact List.map_id names

theorem eq_ofNames_texts {names : List String} (h : p = ofNames names) : p = ofNames p.texts := by
  rw [h, texts_ofNames]

@[simp] theorem length_ofNames (names : List String) : (ofNames names).length = names.length :=
  List.length_map _

/-- One more segment changes the kind. -/
theorem kind_concat (segments : List Segment) (segment : Segment) :
    (Path.mk (segments ++ [segment])).kind = (Path.mk segments).kind.other := by
  have hlength : (Path.mk (segments ++ [segment])).length = (Path.mk segments).length + 1 :=
    List.length_append
  rw [kind, kind, hlength]
  rcases Nat.mod_two_eq_zero_or_one (Path.mk segments).length with h | h
  · rw [if_pos (by omega), if_neg (by omega)]
    rfl
  · rw [if_neg (by omega), if_pos (by omega)]
    rfl

theorem kind_ofNames_concat (names : List String) (name : String) :
    (ofNames (names ++ [name])).kind = (ofNames names).kind.other := by
  rw [ofNames, List.map_append]
  exact kind_concat _ _

theorem hasWildcards_ofNames (names : List String) : (ofNames names).hasWildcards = false := by
  simp [hasWildcards, ofNames, Segment.isWildcard]

/-- A path that has passed the checks of its segments. -/
structure Checked (p : Path) : Prop where
  nonempty : p.texts ≠ []
  names : ∀ text ∈ p.texts, IsName text

theorem Checked.ofNames {names : List String} (hne : names ≠ []) (h : ∀ name ∈ names, IsName name) :
    (ofNames names).Checked :=
  ⟨by rwa [texts_ofNames], by rwa [texts_ofNames]⟩

theorem ofTexts_eq_ok_iff :
    ofTexts allowWildcards texts = .ok p ↔
      texts ≠ [] ∧ (∀ text ∈ texts, text.isEmpty = false) ∧
        p = ⟨texts.map (Segment.ofText allowWildcards)⟩ := by
  unfold ofTexts
  split
  · rename_i hnil
    simp [List.isEmpty_iff.1 hnil]
  · rename_i hnil
    split
    · rename_i hempty
      obtain ⟨text, htext, hvoid⟩ := List.any_eq_true.1 hempty
      refine ⟨fun h => (nomatch h), fun h => ?_⟩
      exact absurd hvoid (Bool.eq_false_iff.1 (h.2.1 text htext))
    · rename_i hempty
      rw [Except.ok.injEq, eq_comm]
      refine ⟨fun h => ⟨mt List.isEmpty_iff.2 hnil, fun text htext => ?_, h⟩, fun h => h.2.2⟩
      exact Bool.eq_false_iff.2 fun hvoid => hempty (List.any_eq_true.2 ⟨text, htext, hvoid⟩)

theorem segmentTexts_eq_ok_iff {segments : List Value} :
    segmentTexts segments = .ok texts ↔
      segments = texts.map .text ∧ ∀ text ∈ texts, hasSeparator text = false := by
  induction segments generalizing texts with
  | nil =>
    rw [segmentTexts, Except.ok.injEq]
    constructor
    · rintro rfl
      exact ⟨rfl, fun text h => absurd h List.not_mem_nil⟩
    · rintro ⟨h, -⟩
      exact (List.map_eq_nil_iff.1 h.symm).symm
  | cons segment rest ih =>
    cases segment with
    | text s =>
      rw [segmentTexts]
      split
      · rename_i hseparator
        refine ⟨fun h => (nomatch h), fun h => ?_⟩
        obtain ⟨heq, hnames⟩ := h
        cases texts with
        | nil => cases heq
        | cons text texts =>
          obtain ⟨htext, -⟩ := List.cons.inj heq
          obtain rfl := Value.text.inj htext
          cases hseparator.symm.trans (hnames s List.mem_cons_self)
      · rename_i hseparator
        constructor
        · intro h
          obtain ⟨others, hothers, rfl⟩ := exists_of_map_eq_ok h
          obtain ⟨rfl, hnames⟩ := ih.1 hothers
          exact ⟨rfl, List.forall_mem_cons.2 ⟨Bool.eq_false_iff.2 hseparator, hnames⟩⟩
        · intro h
          obtain ⟨heq, hnames⟩ := h
          cases texts with
          | nil => cases heq
          | cons text texts =>
            obtain ⟨htext, hrest⟩ := List.cons.inj heq
            obtain rfl := Value.text.inj htext
            rw [ih.2 ⟨hrest, fun text h => hnames text (List.mem_cons_of_mem s h)⟩]
            rfl
    | _ =>
      refine ⟨fun h => (nomatch h), fun h => ?_⟩
      cases texts with
      | nil => cases h.1
      | cons text texts => cases h.1

theorem ofSegments_eq_ok_iff {segments : List Value} :
    ofSegments allowWildcards segments = .ok p ↔
      ∃ texts, segments = texts.map .text ∧ texts ≠ [] ∧ (∀ text ∈ texts, IsName text) ∧
        p = ⟨texts.map (Segment.ofText allowWildcards)⟩ := by
  constructor
  · intro h
    obtain ⟨texts, htexts, hpath⟩ := exists_of_bind_eq_ok h
    obtain ⟨heq, hseparators⟩ := segmentTexts_eq_ok_iff.1 htexts
    obtain ⟨hne, hempty, hp⟩ := ofTexts_eq_ok_iff.1 hpath
    exact ⟨texts, heq, hne, fun text h => ⟨hempty text h, hseparators text h⟩, hp⟩
  · intro h
    obtain ⟨texts, rfl, hne, hnames, rfl⟩ := h
    have htexts := segmentTexts_eq_ok_iff.2 ⟨rfl, fun text h => (hnames text h).2⟩
    rw [ofSegments, htexts]
    exact ofTexts_eq_ok_iff.2 ⟨hne, fun text h => (hnames text h).1, rfl⟩

/-- A text is a path exactly if its parts between separators are names. -/
theorem ofText_eq_ok_iff {text : String} :
    ofText allowWildcards text = .ok p ↔
      Text.split pathSeparator text ≠ [] ∧
        (∀ part ∈ Text.split pathSeparator text, IsName part) ∧
        p = ⟨(Text.split pathSeparator text).map (Segment.ofText allowWildcards)⟩ := by
  have hseparators : ∀ part ∈ Text.split pathSeparator text, hasSeparator part = false := by
    intro part hpart
    have hnot := Text.not_mem_of_mem_split hpart
    rwa [hasSeparator, ← Bool.not_eq_true, List.contains_iff_mem]
  rw [ofText, ofTexts_eq_ok_iff]
  constructor
  · intro h
    obtain ⟨hne, hempty, hp⟩ := h
    exact ⟨hne, fun part hpart => ⟨hempty part hpart, hseparators part hpart⟩, hp⟩
  · intro h
    obtain ⟨hne, hnames, hp⟩ := h
    exact ⟨hne, fun part hpart => (hnames part hpart).1, hp⟩

/-! ### Rows of names -/

theorem exists_names_of_ofSegments {segments : List Value} (h : ofSegments false segments = .ok p) :
    ∃ names, names ≠ [] ∧ (∀ name ∈ names, IsName name) ∧ p = ofNames names := by
  obtain ⟨names, -, hne, hnames, rfl⟩ := ofSegments_eq_ok_iff.1 h
  exact ⟨names, hne, hnames, rfl⟩

/-- Without wildcards a value is a row of names, unless it is a path already. -/
theorem eq_path_or_exists_names {v : Value} (h : ofValue false v = .ok p) :
    v = .path p ∨ ∃ names, names ≠ [] ∧ (∀ name ∈ names, IsName name) ∧ p = ofNames names := by
  cases v with
  | path q =>
    obtain rfl := Except.ok.inj h
    exact .inl rfl
  | text s =>
    obtain ⟨hne, hnames, rfl⟩ := ofText_eq_ok_iff.1 h
    exact .inr ⟨_, hne, hnames, rfl⟩
  | sequence kind items => exact .inr (exists_names_of_ofSegments h)
  | bytes data mutable => exact .inr (exists_names_of_ofSegments h)
  | _ => cases h

/-- One more segment below checked ones. -/
theorem ofSegments_concat_eq_ok_iff {name : Value} :
    ofSegments false (texts.map .text ++ [name]) = .ok p ↔
      ∃ last, name = .text last ∧ (∀ text ∈ texts ++ [last], IsName text) ∧
        p = ofNames (texts ++ [last]) := by
  rw [ofSegments_eq_ok_iff]
  constructor
  · intro h
    obtain ⟨names, heq, hne, hnames, rfl⟩ := h
    rcases List.eq_nil_or_concat names with rfl | ⟨init, last, rfl⟩
    · exact absurd rfl hne
    · rw [List.concat_eq_append] at heq hnames ⊢
      rw [List.map_append, List.map_singleton] at heq
      obtain ⟨hinit, hlast⟩ := List.append_inj' heq rfl
      obtain rfl := List.map_injective_iff.2 (fun _ _ => Value.text.inj) hinit
      exact ⟨last, List.singleton_inj.1 hlast, hnames, rfl⟩
  · intro h
    obtain ⟨last, rfl, hnames, rfl⟩ := h
    refine ⟨texts ++ [last], ?_, List.append_ne_nil_of_right_ne_nil texts (by simp), hnames, rfl⟩
    rw [List.map_append, List.map_singleton]

theorem require_eq_ok_iff {kind : PathKind} {q : Path} :
    p.require kind = .ok q ↔ p.kind = kind ∧ q = p := by
  unfold require
  split
  · rename_i h
    rw [Except.ok.injEq, eq_comm, and_iff_right h]
  · rename_i h
    exact ⟨fun heq => (nomatch heq), fun heq => absurd heq.1 h⟩

end Path
end SchemaAtlas
