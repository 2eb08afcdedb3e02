import SchemaAtlas.Files.Tree
import SchemaAtlas.Proofs.Configuration.Loading
import SchemaAtlas.Proofs.Path
import SchemaAtlas.Proofs.Tree.GroupSearch

/-!
# What a loaded configuration guarantees

Everything that is done with a configuration has its conditions: building the tree takes two reserved
keys that are different names, searching for a collection group takes at least one level. Whatever
stands in the files and however their texts are read as data, a configuration that is loaded meets all
of them, so nothing that is done with it later is refused.
-/
namespace SchemaAtlas

/-! ### Trimmed texts -/

namespace Text

/-- There is no blank at either end. -/
structure Trimmed (s : String) : Prop where
  first : ∀ c ∈ s.toList.head?, isBlank c = false
  last : ∀ c ∈ s.toList.getLast?, isBlank c = false

/-- There is no character at an end of the text, or it is none that is trimmed. -/
theorem trimmed_iff {s : String} :
    Trimmed s ↔ (s.toList.head?.all fun c => !isBlank c) = true ∧
      (s.toList.getLast?.all fun c => !isBlank c) = true := by
  simp only [Option.all_eq_true, Bool.not_eq_true']
  exact ⟨fun h => ⟨h.first, h.last⟩, fun h => ⟨h.1, h.2⟩⟩

instance (s : String) : Decidable (Trimmed s) := decidable_of_iff _ trimmed_iff.symm

theorem isBlank_of_head?_dropBlanks {cs : List Char} {c : Char}
    (h : (dropBlanks cs).head? = some c) : isBlank c = false := by
  have hhead := List.head?_dropWhile_not isBlank cs
  rwa [show (cs.dropWhile isBlank).head? = some c from h] at hhead

theorem trimmed_trim (s : String) : Trimmed (trim s) := by
  have htrim : (trim s).toList = trimChars s.toList := String.toList_ofList
  constructor
  · intro c hc
    -- trimming the far end leaves the start of what was trimmed before
    have hsuffix := List.dropWhile_suffix (l := (dropBlanks s.toList).reverse) isBlank
    obtain ⟨dropped, hdropped⟩ := List.reverse_prefix.2 hsuffix
    rw [List.reverse_reverse] at hdropped
    have hstart : (dropBlanks s.toList).head? = some c := by
      rw [← hdropped, List.head?_append]
      exact congrArg (Option.or · _) (htrim ▸ hc)
    exact isBlank_of_head?_dropBlanks hstart
  · intro c hc
    rw [htrim, trimChars, List.getLast?_reverse] at hc
    exact isBlank_of_head?_dropBlanks hc

end Text

/-- A reserved key that can be used: a name with no blank at either end. -/
structure IsReservedKey (key : String) : Prop where
  isName : IsName key
  trimmed : Text.Trimmed key

instance (key : String) : Decidable (IsReservedKey key) :=
  decidable_of_iff (IsName key ∧ Text.Trimmed key)
    ⟨fun h => ⟨h.1, h.2⟩, fun h => ⟨h.isName, h.trimmed⟩⟩

namespace Configuration

/-- What is done with the configuration is given all that it needs, by data that are read so. -/
structure Sound (read : Yaml.Parser) (c : Configuration) : Prop where
  nonblank : Text.isBlankText c.schema.text = false
  schemaKey : IsReservedKey c.declaration.schemaKey
  genericKey : IsReservedKey c.declaration.genericKey
  distinct : c.declaration.schemaKey ≠ c.declaration.genericKey
  depth_pos : 0 < c.depth
  searchable : ∃ tree, c.tree read = .ok tree ∧ ∀ name, IsName name →
    ∃ u, tree.collectionGroup (Path.checkGroupName name) c.depth = .ok u

/-- The depth is an integer in the section on resolution, or the usual one if none is given there. -/
def GivesDepth (g : Graph) (entries : List (Value × Part)) (depth : Int) : Prop :=
  ∃ settings, optionalSection g entries "resolution" = .ok settings ∧
    (part? settings "max_traversal_depth" = some (.leaf (.integer depth)) ∨
      part? settings "max_traversal_depth" = none ∧ depth = defaultDepth)

variable {g : Graph} {entries : List (Value × Part)}

/-! ### The sections -/

theorem isReservedKey_of_reservedKey {field default key : String} {part : Option Part}
    (hdefault : IsReservedKey default) (h : reservedKey field default part = .ok key) :
    IsReservedKey key := by
  unfold reservedKey at h
  split at h
  · obtain rfl := Except.ok.inj h
    exact hdefault
  · rename_i text
    dsimp only at h
    split at h
    · cases h
    · rename_i hempty
      split at h
      · cases h
      · rename_i hseparator
        obtain rfl := Except.ok.inj h
        have hname : IsName (Text.trim text) :=
          ⟨Bool.eq_false_iff.2 hempty, Bool.eq_false_iff.2 hseparator⟩
        exact ⟨hname, Text.trimmed_trim text⟩
  · cases h

theorem reservedKeys_of_declarationSettings {s : DeclarationSettings}
    (h : declarationSettings g entries = .ok s) :
    IsReservedKey s.schemaKey ∧ IsReservedKey s.genericKey ∧ s.schemaKey ≠ s.genericKey := by
  obtain ⟨settings, -, h⟩ := exists_of_bind_eq_ok h
  obtain ⟨schemaKey, hschema, h⟩ := exists_of_bind_eq_ok h
  obtain ⟨genericKey, hgeneric, h⟩ := exists_of_bind_eq_ok h
  split at h
  · cases h
  · rename_i hdistinct
    obtain rfl := Except.ok.inj h
    exact ⟨isReservedKey_of_reservedKey (by decide) hschema,
      isReservedKey_of_reservedKey (by decide) hgeneric, hdistinct⟩

theorem givesDepth_of_searchDepth {depth : Int} (h : searchDepth g entries = .ok depth) :
    GivesDepth g entries depth := by
  obtain ⟨settings, hsettings, h⟩ := exists_of_bind_eq_ok h
  refine ⟨settings, hsettings, ?_⟩
  unfold levels at h
  split at h
  · rename_i hnone
    exact .inr ⟨hnone, (Except.ok.inj h).symm⟩
  · rename_i given hgiven
    split at h
    · cases h
    · obtain rfl := Except.ok.inj h
      exact .inl hgiven
  · cases h

/-! ### The whole configuration -/

section Loading

variable {σ : Type} {fs : FileSystem (StateM σ)} {s : σ} {file directory : FilePath}
  {read : Yaml.Parser}

theorem check_eq_ok_of_run {α : Type} {r : Except ConfigurationError α} {a : α}
    (h : ((check r : ExceptT LoadError (StateM σ) α).run.run s).1 = .ok a) : r = .ok a := by
  rw [onlyReads_check r] at h
  exact check_eq_ok h

/-- Where a text is gone on with, it has been read in some state on the way. -/
theorem exists_of_runOn_withTextAt {α : Type} {refusal : ConfigurationError} {a : α}
    {go : String → ExceptT LoadError (StateM σ) α}
    (h : ((withTextAt fs file refusal go).run.run s).1 = .ok a) :
    ∃ text s₁ s₂, ((fs.readText file).run.run s₁).1 = .ok text ∧
      ((go text).run.run s₂).1 = .ok a := by
  obtain ⟨present, s₁, -, h⟩ := exists_of_runOn_bind_eq_ok h
  cases present with
  | false => cases h
  | true =>
    obtain ⟨text, s₂, htext, h⟩ := exists_of_runOn_bind_eq_ok h
    have hread := runOn_adapt LoadError.file (Prod.eta ((fs.readText file).run.run s₁)).symm
    exact ⟨text, s₁, s₂, eq_ok_of_mapError_eq_ok (congrArg Prod.fst (hread.symm.trans htext)), h⟩

theorem nonblank_of_run {found source : SchemaSource}
    (h : ((nonblank found : ExceptT LoadError (StateM σ) _).run.run s).1 = .ok source) :
    Text.isBlankText source.text = false := by
  rw [onlyReads_nonblank found, nonblank_run] at h
  split at h
  · cases h
  · rename_i hblank
    obtain rfl := Except.ok.inj h
    exact Bool.not_eq_true _ ▸ hblank

theorem nonblank_of_sourceAt {place : FilePath} {source : SchemaSource}
    (h : ((sourceAt fs place).run.run s).1 = .ok source) :
    Text.isBlankText source.text = false := by
  obtain ⟨text, s₁, s₂, -, h⟩ := exists_of_runOn_withTextAt h
  exact nonblank_of_run h

/-- Wherever a declaration comes from, its text is not taken if it is blank. -/
theorem nonblank_of_schemaSource {d : SchemaDefinition} {source : SchemaSource}
    (h : ((schemaSource fs directory d).run.run s).1 = .ok source) :
    Text.isBlankText source.text = false := by
  cases d with
  | inline text => exact nonblank_of_run h
  | file path =>
    unfold schemaSource at h
    dsimp only at h
    split at h
    · exact nonblank_of_sourceAt h
    · obtain ⟨place, s', -, h⟩ := exists_of_runOn_bind_eq_ok h
      exact nonblank_of_sourceAt h

/--
A configuration that is loaded is sound: its declaration is no blank text, its reserved keys are two
different names without surrounding blanks, its depth is a positive integer, and the tree that it
declares can be built and searched for any name. No number but an integer is taken for the depth.
-/
theorem sound_of_load {c : Configuration} (h : ((load fs file read).run.run s).1 = .ok c) :
    c.Sound read ∧ ∃ text s₁ g entries, ((fs.readText file).run.run s₁).1 = .ok text ∧
      entriesOfText text read = .ok (g, entries) ∧ GivesDepth g entries c.depth := by
  obtain ⟨text, s₁, s₂, htext, h⟩ := exists_of_runOn_withTextAt h
  obtain ⟨⟨g, entries⟩, s₃, hentries, h⟩ := exists_of_runOn_bind_eq_ok h
  obtain ⟨d, s₄, -, h⟩ := exists_of_runOn_bind_eq_ok h
  obtain ⟨source, s₅, hsource, h⟩ := exists_of_runOn_bind_eq_ok h
  obtain ⟨settings, s₆, hsettings, h⟩ := exists_of_runOn_bind_eq_ok h
  obtain ⟨depth, s₇, hdepth, h⟩ := exists_of_runOn_bind_eq_ok h
  obtain ⟨tree, s₈, htree, h⟩ := exists_of_runOn_bind_eq_ok h
  have hdepth : searchDepth g entries = .ok depth := check_eq_ok_of_run (congrArg Prod.fst hdepth)
  have hpos : 0 < depth := depth_pos_of_searchDepth hdepth
  obtain ⟨hschema, hgeneric, hdistinct⟩ :=
    reservedKeys_of_declarationSettings (check_eq_ok_of_run (congrArg Prod.fst hsettings))
  obtain rfl := Except.ok.inj h
  refine ⟨⟨nonblank_of_schemaSource (congrArg Prod.fst hsource), hschema, hgeneric, hdistinct, hpos,
    tree, congrArg Prod.fst htree, fun name hname => ?_⟩,
    text, s₁, g, entries, htext, congrArg Prod.fst hentries, givesDepth_of_searchDepth hdepth⟩
  exact ⟨_, SchemaTree.collectionGroup_eq_ok (checkGroupName_of_isName hname) hpos⟩

end Loading

/-- A configuration with a declaration in a file of its own. -/
def postsFiles : FileTree where
  entries := [(["config.yaml"], .file (.bytes
      "schema:\n  path: store.yaml\ndeclaration:\n  schema_key: ' fields '\n".toUTF8)),
    (["store.yaml"], .file (.bytes
      "posts:\n  '*':\n    fields:\n      title: string\n".toUTF8))]
  working := []

theorem sound_of_load_posts : ∃ c,
    ((load FileTree.system ⟨"", ["config.yaml"]⟩).run.run postsFiles).1 = .ok c ∧
      c.Sound Yaml.read := by
  obtain ⟨c, h⟩ := exists_eq_ok_of_isOk
    (x := ((load FileTree.system ⟨"", ["config.yaml"]⟩).run.run postsFiles).1) (by decide +kernel)
  exact ⟨c, h, (sound_of_load h).1⟩

end Configuration
end SchemaAtlas
