import SchemaAtlas.Configuration.Loading
import SchemaAtlas.Proofs.Files.Reading

/-!
# Loaded configurations

Loading only reads. It gives a configuration if every check on the way is passed, and else it
either refuses the configuration or runs into a fault that it has no refusal for: files that do not
tell what stands at a path, something that is there and is no text, data that cannot be read though
the text is well formed, or a field type that holds itself.
-/
namespace SchemaAtlas

open FileSystem
open Yaml (YamlError)

/-- The error is no refusal of the configuration. -/
def LoadError.IsFault : LoadError → Prop
  | .configuration (.declaration (.fieldType _ _ .endless)) => True
  | .configuration _ => False
  | .file _ | .value _ => True

namespace Configuration

variable {σ : Type} {fs : FileSystem (StateM σ)} {st : σ} {files : FileSystem Id}
  {read : Yaml.Parser}

/-! ### Loading only reads -/

section Steps

variable {m : Type → Type} [Monad m] {α : Type} {place : FilePath} {text : String}
  {refusal : ConfigurationError}

/-- Goes on with the text of a file that has to be there. -/
def withTextAt (fs : FileSystem m) (place : FilePath) (refusal : ConfigurationError)
    (go : String → ExceptT LoadError m α) : ExceptT LoadError m α := do
  if !(← isPresent fs place) then reject refusal
  go (← readText fs place)

theorem onlyReads_withTextAt (hfs : fs.Steady) {go : String → ExceptT LoadError (StateM σ) α}
    {go' : String → ExceptT LoadError Id α} (h : ∀ text, OnlyReads st (go text) (go' text)) :
    OnlyReads st (withTextAt fs place refusal go)
      (withTextAt (fs.answers st) place refusal go') := by
  refine ((hfs.onlyReads_isPresent st place).adapt _).bind fun b => ?_
  cases b with
  | false => exact onlyReads_throw _
  | true => exact ((hfs.onlyReads_readText st place).adapt _).bind h

variable {go : String → ExceptT LoadError Id α}

theorem withTextAt_of_holdsText (h : files.HoldsText place text) :
    (withTextAt files place refusal go).run.run = (go text).run.run := by
  refine (run_bind_of_ok (congrArg (Except.mapError LoadError.file) h.isPresent)).trans ?_
  exact run_bind_of_ok (congrArg (Except.mapError LoadError.file) h.readText_eq)

theorem withTextAt_of_unreadable {fault : FileError} (h : files.Unreadable place fault) :
    (withTextAt files place refusal go).run.run = .error (.file fault) := by
  rcases h.presence_or_readText with h | ⟨h, hread⟩
  · exact run_bind_of_error (congrArg (Except.mapError LoadError.file) h)
  · refine (run_bind_of_ok (congrArg (Except.mapError LoadError.file) h)).trans ?_
    exact run_bind_of_error (congrArg (Except.mapError LoadError.file) hread)

theorem withTextAt_of_missing (h : files.isPresent place = .ok false) :
    (withTextAt files place refusal go).run.run = .error (.configuration refusal) :=
  run_bind_of_ok (congrArg (Except.mapError LoadError.file) h)

theorem withTextAt_cases {r : Except LoadError α}
    (h : (withTextAt files place refusal go).run.run = r) :
    r = .error (.configuration refusal) ∨
      (∃ fault, files.Unreadable place fault ∧ r = .error (.file fault)) ∨
      ∃ text, files.HoldsText place text ∧ (go text).run.run = r := by
  rcases holdsText_or_unreadable files place with ⟨text, htext⟩ | ⟨fault, hfault⟩ | hmissing
  · exact .inr (.inr ⟨text, htext, (withTextAt_of_holdsText htext).symm.trans h⟩)
  · exact .inr (.inl ⟨fault, hfault, h.symm.trans (withTextAt_of_unreadable hfault)⟩)
  · exact .inl (h.symm.trans (withTextAt_of_missing hmissing))

theorem onlyReads_check (r : Except ConfigurationError α) :
    OnlyReads st (check r) (check r) := by
  cases r <;> rfl

theorem check_run (r : Except ConfigurationError α) :
    (check r : ExceptT LoadError Id α).run.run = r.mapError .configuration := by
  cases r <;> rfl

end Steps

/-- The declaration with a text, unless the text is blank. -/
def nonblank {m : Type → Type} [Monad m] (source : SchemaSource) :
    ExceptT LoadError m SchemaSource := do
  if Text.isBlankText source.text then reject .emptySchema
  return source

theorem onlyReads_nonblank (source : SchemaSource) :
    OnlyReads st (nonblank source) (nonblank source) := by
  unfold nonblank
  split
  · exact onlyReads_throw _
  · exact onlyReads_pure _

theorem nonblank_run (source : SchemaSource) :
    (nonblank source : ExceptT LoadError Id SchemaSource).run.run =
      if Text.isBlankText source.text then .error (.configuration .emptySchema)
      else .ok source := by
  unfold nonblank
  split <;> rfl

/-- The declaration at a place. -/
def sourceAt {m : Type → Type} [Monad m] (fs : FileSystem m) (place : FilePath) :
    ExceptT LoadError m SchemaSource :=
  withTextAt fs place (.schemaFileNotFound place) fun text => nonblank ⟨text, some place⟩

theorem onlyReads_schemaSource (hfs : fs.Steady) (directory : FilePath) (d : SchemaDefinition) :
    OnlyReads st (schemaSource fs directory d) (schemaSource (fs.answers st) directory d) := by
  have hplace (place : FilePath) :
      OnlyReads st (sourceAt fs place) (sourceAt (fs.answers st) place) :=
    onlyReads_withTextAt hfs fun text => onlyReads_nonblank _
  cases d with
  | inline text => exact onlyReads_nonblank _
  | file file =>
    change OnlyReads st (if file.isAbsolute = true then _ else _)
      (if file.isAbsolute = true then _ else _)
    split
    · exact hplace file
    · exact ((hfs.onlyReads_resolve st _).adapt _).bind hplace

theorem onlyReads_load (hfs : fs.Steady) (st : σ) (file : FilePath) (read : Yaml.Parser) :
    OnlyReads st (load fs file read) (load (fs.answers st) file read) := by
  change OnlyReads st (withTextAt fs file (.fileNotFound file) _)
    (withTextAt (fs.answers st) file (.fileNotFound file) _)
  refine onlyReads_withTextAt hfs fun text => (onlyReads_mk _).bind fun (g, entries) => ?_
  refine (onlyReads_check _).bind fun definition => ?_
  refine (onlyReads_schemaSource hfs _ _).bind fun schema => ?_
  refine (onlyReads_check _).bind fun declaration => (onlyReads_check _).bind fun depth => ?_
  exact (onlyReads_mk _).bind fun _ => onlyReads_pure _

/-! ### The text of the declaration -/

/--
A path of a configuration in a directory leads to a place; an absolute one is the place itself.
-/
inductive LeadsTo (files : FileSystem Id) (directory path : FilePath) : FilePath → Prop
  | absolute (h : path.isAbsolute = true) : LeadsTo files directory path path
  | relative {place : FilePath} (h : path.isAbsolute = false)
      (hplace : files.resolve (directory.below path) = .ok place) :
      LeadsTo files directory path place

/-- The text of a declaration, written in the configuration or standing in another file. -/
inductive HasSource (files : FileSystem Id) (directory : FilePath) :
    SchemaDefinition → SchemaSource → Prop
  | inline (text : String) : HasSource files directory (.inline text) ⟨text, none⟩
  | file {path place : FilePath} {text : String} (hplace : LeadsTo files directory path place)
      (htext : files.HoldsText place text) :
      HasSource files directory (.file path) ⟨text, some place⟩

/-- The text of a declaration cannot be read. -/
inductive SourceFault (files : FileSystem Id) (directory : FilePath) :
    SchemaDefinition → FileError → Prop
  | unresolved {path : FilePath} {e : FileError} (h : path.isAbsolute = false)
      (he : files.resolve (directory.below path) = .error e) :
      SourceFault files directory (.file path) e
  | unreadable {path place : FilePath} {e : FileError} (hplace : LeadsTo files directory path place)
      (h : files.Unreadable place e) : SourceFault files directory (.file path) e

variable {directory place file : FilePath} {d : SchemaDefinition} {s : SchemaSource}

theorem LeadsTo.schemaSource_eq (h : LeadsTo files directory file place) :
    (schemaSource files directory (.file file)).run.run = (sourceAt files place).run.run := by
  rw [schemaSource]
  cases h with
  | absolute h =>
    simp only [h, ↓reduceIte]
    rfl
  | relative h hplace =>
    simp only [h, Bool.false_eq_true, ↓reduceIte, hplace]
    rfl

theorem HasSource.schemaSource_eq (h : HasSource files directory d s) :
    (schemaSource files directory d).run.run =
      if Text.isBlankText s.text then .error (.configuration .emptySchema) else .ok s := by
  cases h with
  | inline text => exact nonblank_run _
  | file hplace htext =>
    exact hplace.schemaSource_eq.trans ((withTextAt_of_holdsText htext).trans (nonblank_run _))

theorem SourceFault.schemaSource_eq {e : FileError} (h : SourceFault files directory d e) :
    (schemaSource files directory d).run.run = .error (.file e) := by
  cases h with
  | unresolved h he =>
    simp only [schemaSource, h, Bool.false_eq_true, ↓reduceIte, he]
    rfl
  | unreadable hplace h => exact hplace.schemaSource_eq.trans (withTextAt_of_unreadable h)

/-- A path leads to one place, unless it is relative and the files do not tell where it leads. -/
theorem exists_leadsTo (files : FileSystem Id) (directory file : FilePath) :
    (∃ place, LeadsTo files directory file place) ∨
      ∃ e, SourceFault files directory (.file file) e := by
  cases h : file.isAbsolute with
  | true => exact .inl ⟨file, .absolute h⟩
  | false =>
    cases hplace : files.resolve (directory.below file) with
    | error e => exact .inr ⟨e, .unresolved h hplace⟩
    | ok place => exact .inl ⟨place, .relative h hplace⟩

theorem schemaSource_cases (files : FileSystem Id) (directory : FilePath) (d : SchemaDefinition) :
    (∃ s, HasSource files directory d s) ∨ (∃ e, SourceFault files directory d e) ∨
      ∃ place, (schemaSource files directory d).run.run =
        .error (.configuration (.schemaFileNotFound place)) := by
  cases d with
  | inline text => exact .inl ⟨_, .inline text⟩
  | file file =>
    rcases exists_leadsTo files directory file with ⟨place, hplace⟩ | hfault
    · rcases holdsText_or_unreadable files place with ⟨text, htext⟩ | ⟨e, he⟩ | hmissing
      · exact .inl ⟨_, .file hplace htext⟩
      · exact .inr (.inl ⟨e, .unreadable hplace he⟩)
      · refine .inr (.inr ⟨place, ?_⟩)
        exact hplace.schemaSource_eq.trans (withTextAt_of_missing hmissing)
    · exact .inr (.inl hfault)

theorem schemaSource_eq_ok_iff :
    (schemaSource files directory d).run.run = .ok s ↔
      HasSource files directory d s ∧ Text.isBlankText s.text = false := by
  constructor
  · intro h
    rcases schemaSource_cases files directory d with ⟨other, hother⟩ | ⟨e, he⟩ | ⟨place, hplace⟩
    · rw [hother.schemaSource_eq] at h
      split at h
      · cases h
      · rename_i hblank
        obtain rfl := Except.ok.inj h
        exact ⟨hother, Bool.not_eq_true _ ▸ hblank⟩
    · cases h.symm.trans he.schemaSource_eq
    · cases h.symm.trans hplace
  · rintro ⟨h, hblank⟩
    rw [h.schemaSource_eq, hblank]
    rfl

theorem schemaSource_fault_iff {e : LoadError} :
    (schemaSource files directory d).run.run = .error e ∧ e.IsFault ↔
      ∃ fault, SourceFault files directory d fault ∧ e = .file fault := by
  constructor
  · rintro ⟨h, hfault⟩
    rcases schemaSource_cases files directory d with ⟨s, hs⟩ | ⟨fault, he⟩ | ⟨place, hplace⟩
    · rw [hs.schemaSource_eq] at h
      split at h <;> cases h
      cases hfault
    · exact ⟨fault, he, Except.error.inj (h.symm.trans he.schemaSource_eq)⟩
    · obtain rfl := Except.error.inj (h.symm.trans hplace)
      cases hfault
  · rintro ⟨fault, h, rfl⟩
    exact ⟨h.schemaSource_eq, trivial⟩

/-! ### The whole configuration -/

/-- The text at a path holds the entries of a configuration, and a definition of its schema. -/
def Defines (files : FileSystem Id) (read : Yaml.Parser) (file : FilePath) (g : Graph)
    (entries : List (Value × Part)) (d : SchemaDefinition) : Prop :=
  ∃ text, files.HoldsText file text ∧ entriesOfText text read = .ok (g, entries) ∧
    schemaDefinition g entries = .ok d

/-- All that a configuration consists of is found, from its text at a path on. -/
structure Settles (files : FileSystem Id) (read : Yaml.Parser) (file : FilePath)
    (c : Configuration) : Prop where
  path_eq : c.path = file
  nonblank : Text.isBlankText c.schema.text = false
  found : ∃ g entries d, Defines files read file g entries d ∧
    HasSource files file.parent d c.schema ∧
    declarationSettings g entries = .ok c.declaration ∧ searchDepth g entries = .ok c.depth

/-- The configuration at a path is complete, and it declares the tree. -/
structure Loads (files : FileSystem Id) (read : Yaml.Parser) (file : FilePath) (c : Configuration)
    (tree : SchemaTree) : Prop extends Settles files read file c where
  tree_eq : c.tree read = .ok tree

theorem depth_pos_of_searchDepth {g : Graph} {entries : List (Value × Part)} {depth : Int}
    (h : searchDepth g entries = .ok depth) : 0 < depth := by
  obtain ⟨settings, -, h⟩ := exists_of_bind_eq_ok h
  unfold levels at h
  split at h
  · cases h
    decide
  · split at h
    · cases h
    · rename_i hdepth
      cases h
      exact Int.not_le.1 hdepth
  · cases h

theorem Settles.depth_pos {c : Configuration} (h : Settles files read file c) : 0 < c.depth := by
  obtain ⟨g, entries, d, -, -, -, hdepth⟩ := h.found
  exact depth_pos_of_searchDepth hdepth

/-- What loading a configuration has no refusal for. -/
inductive LoadFault (files : FileSystem Id) (read : Yaml.Parser) (file : FilePath) :
    LoadError → Prop
  | unreadable {e : FileError} (h : files.Unreadable file e) : LoadFault files read file (.file e)
  | value {text : String} {e : YamlError} (htext : files.HoldsText file text)
      (h : read text = .error e) (he : e ≠ .malformed) : LoadFault files read file (.value e)
  | source {g : Graph} {entries : List (Value × Part)} {d : SchemaDefinition} {e : FileError}
      (hd : Defines files read file g entries d) (h : SourceFault files file.parent d e) :
      LoadFault files read file (.file e)
  | declarationValue {c : Configuration} {e : YamlError} (hc : Settles files read file c)
      (h : read c.schema.text = .error e) (he : e ≠ .malformed) :
      LoadFault files read file (.value e)
  | endless {c : Configuration} {g : Graph} {document : String} {field : List String}
      (hc : Settles files read file c)
      (hg : Graph.ofDeclarationText c.schema.text read = .ok g)
      (h : SchemaTree.ofGraph g c.declaration.keys = .error (.fieldType document field .endless)) :
      LoadFault files read file (.configuration (.declaration (.fieldType document field .endless)))

/-! ### Refusals are no faults -/

/-- A check that only ever refuses the configuration. -/
def OnlyRefuses {α : Type} (r : Except ConfigurationError α) : Prop :=
  ∀ e, r = .error e → ¬ (LoadError.configuration e).IsFault

section Checks

variable {α β : Type} {g : Graph} {entries : List (Value × Part)}

theorem onlyRefuses_ok (a : α) : OnlyRefuses (.ok a) := nofun

theorem onlyRefuses_error {e : ConfigurationError} (h : ¬ (LoadError.configuration e).IsFault) :
    OnlyRefuses (.error e : Except _ α) := by
  intro other hother
  obtain rfl := Except.error.inj hother
  exact h

theorem OnlyRefuses.bind {x : Except ConfigurationError α} {f : α → Except ConfigurationError β}
    (hx : OnlyRefuses x) (hf : ∀ a, OnlyRefuses (f a)) : OnlyRefuses (x >>= f) := by
  intro e h
  rcases eq_error_of_bind_eq_error h with h | ⟨a, -, h⟩
  · exact hx e h
  · exact hf a e h

theorem onlyRefuses_rootEntries : OnlyRefuses (rootEntries g) := by
  unfold rootEntries
  split
  · exact onlyRefuses_ok _
  split
  · exact onlyRefuses_ok _
  · exact onlyRefuses_error id

theorem onlyRefuses_definitionIn : OnlyRefuses (definitionIn g entries) := by
  unfold definitionIn
  extract_lets inline file
  clear_value inline file
  split
  · exact onlyRefuses_error id
  split
  · split
    · exact onlyRefuses_ok _
    · exact onlyRefuses_error id
  split
  · split
    · exact onlyRefuses_ok _
    · exact onlyRefuses_error id
  · exact onlyRefuses_error id

theorem onlyRefuses_schemaDefinition : OnlyRefuses (schemaDefinition g entries) := by
  unfold schemaDefinition
  split
  · exact onlyRefuses_ok _
  · split
    · exact onlyRefuses_definitionIn
    · exact onlyRefuses_error id
  · exact onlyRefuses_error id

theorem onlyRefuses_optionalSection (name : String) :
    OnlyRefuses (optionalSection g entries name) := by
  unfold optionalSection
  split
  · exact onlyRefuses_ok _
  split
  · exact onlyRefuses_ok _
  split
  · exact onlyRefuses_ok _
  · exact onlyRefuses_error id

theorem onlyRefuses_reservedKey (field default : String) (part : Option Part) :
    OnlyRefuses (reservedKey field default part) := by
  unfold reservedKey
  split
  · exact onlyRefuses_ok _
  · extract_lets key
    split
    · exact onlyRefuses_error id
    split
    · exact onlyRefuses_error id
    · exact onlyRefuses_ok _
  · exact onlyRefuses_error id

theorem onlyRefuses_declarationSettings : OnlyRefuses (declarationSettings g entries) := by
  refine (onlyRefuses_optionalSection _).bind fun settings => ?_
  refine (onlyRefuses_reservedKey _ _ _).bind fun schemaKey => ?_
  refine (onlyRefuses_reservedKey _ _ _).bind fun genericKey => ?_
  split
  · exact onlyRefuses_error id
  · exact onlyRefuses_ok _

theorem onlyRefuses_searchDepth : OnlyRefuses (searchDepth g entries) := by
  refine (onlyRefuses_optionalSection _).bind fun settings => ?_
  unfold levels
  split
  · exact onlyRefuses_ok _
  · split
    · exact onlyRefuses_error id
    · exact onlyRefuses_ok _
  · exact onlyRefuses_error id

end Checks

/-! ### What loading gives -/

variable {text : String} {e : LoadError}

theorem entriesOfText_fault_iff :
    entriesOfText text read = .error e ∧ e.IsFault ↔
      ∃ fault, read text = .error fault ∧ fault ≠ .malformed ∧ e = .value fault := by
  constructor
  · rintro ⟨h, he⟩
    rcases eq_error_of_bind_eq_error h with h | ⟨g, -, h⟩
    · obtain ⟨fault, hfault, rfl⟩ := exists_of_mapError_eq_error h
      refine ⟨fault, hfault, ?_⟩
      cases fault with
      | malformed => cases he
      | _ => exact ⟨nofun, rfl⟩
    · rcases eq_error_of_bind_eq_error h with h | ⟨entries, -, h⟩
      · obtain ⟨refusal, hrefusal, rfl⟩ := exists_of_mapError_eq_error h
        exact absurd he (onlyRefuses_rootEntries refusal hrefusal)
      · cases h
  · rintro ⟨fault, h, hfault, rfl⟩
    refine ⟨?_, trivial⟩
    rw [entriesOfText, h]
    cases fault with
    | malformed => cases hfault rfl
    | _ => rfl

theorem ofDeclarationText_fault_iff :
    (Graph.ofDeclarationText text read).mapError .ofDeclarationText = .error e ∧ e.IsFault ↔
      ∃ fault, read text = .error fault ∧ fault ≠ .malformed ∧ e = .value fault := by
  constructor
  · rintro ⟨h, he⟩
    obtain ⟨error, herror, rfl⟩ := exists_of_mapError_eq_error h
    rcases eq_error_of_bind_eq_error herror with herror | ⟨g, -, herror⟩
    · obtain ⟨fault, hfault, rfl⟩ := exists_of_mapError_eq_error herror
      refine ⟨fault, hfault, ?_⟩
      cases fault with
      | malformed => cases he
      | _ => exact ⟨nofun, rfl⟩
    · -- an empty text and a text of another kind are refused
      split at herror
      · cases herror
        cases he
      · split at herror <;> cases herror
        cases he
  · rintro ⟨fault, h, hfault, rfl⟩
    refine ⟨?_, trivial⟩
    rw [Graph.ofDeclarationText, h]
    cases fault with
    | malformed => cases hfault rfl
    | _ => rfl

theorem treeOf_fault_iff {settings : DeclarationSettings} :
    treeOf text settings read = .error e ∧ e.IsFault ↔
      (∃ fault, read text = .error fault ∧ fault ≠ .malformed ∧ e = .value fault) ∨
        ∃ g document field, Graph.ofDeclarationText text read = .ok g ∧
          SchemaTree.ofGraph g settings.keys = .error (.fieldType document field .endless) ∧
          e = .configuration (.declaration (.fieldType document field .endless)) := by
  constructor
  · rintro ⟨h, he⟩
    rcases eq_error_of_bind_eq_error h with h | ⟨g, hg, h⟩
    · exact .inl (ofDeclarationText_fault_iff.1 ⟨h, he⟩)
    · obtain ⟨error, herror, rfl⟩ := exists_of_mapError_eq_error h
      unfold LoadError.IsFault at he
      split at he
      · rename_i document field heq
        cases heq
        exact .inr ⟨g, document, field, eq_ok_of_mapError_eq_ok hg, herror, rfl⟩
      · cases he
      · rename_i heq
        cases heq
      · rename_i heq
        cases heq
  · rintro (h | ⟨g, document, field, hg, h, rfl⟩)
    · obtain ⟨htext, he⟩ := ofDeclarationText_fault_iff.2 h
      refine ⟨?_, he⟩
      rw [treeOf, htext]
      rfl
    · refine ⟨?_, trivial⟩
      rw [treeOf, hg]
      change Except.mapError _ (SchemaTree.ofGraph g settings.keys) = _
      rw [h]
      rfl

theorem Defines.load_eq {g : Graph} {entries : List (Value × Part)}
    (hd : Defines files read file g entries d)
    (h : (schemaSource files file.parent d).run.run = .error e) :
    (load files file read).run.run = .error e := by
  obtain ⟨text, htext, hentries, hd⟩ := hd
  refine (withTextAt_of_holdsText htext).trans ((run_bind_of_ok hentries).trans ?_)
  refine (run_bind_of_ok ((check_run _).trans (congrArg _ hd))).trans ?_
  exact run_bind_of_error h

/-- What loading gives once everything but the tree is settled. -/
theorem Settles.load_eq {c : Configuration} (h : Settles files read file c) :
    (load files file read).run.run = (c.tree read).map fun _ => c := by
  obtain ⟨rfl, hblank, g, entries, d, ⟨text, htext, hentries, hd⟩, hsource, hsettings, hdepth⟩ := h
  refine (withTextAt_of_holdsText htext).trans ((run_bind_of_ok hentries).trans ?_)
  refine (run_bind_of_ok ((check_run _).trans (congrArg _ hd))).trans ?_
  refine (run_bind_of_ok (schemaSource_eq_ok_iff.2 ⟨hsource, hblank⟩)).trans ?_
  refine (run_bind_of_ok ((check_run _).trans (congrArg _ hsettings))).trans ?_
  refine (run_bind_of_ok ((check_run _).trans (congrArg _ hdepth))).trans ?_
  cases htree : c.tree read with
  | ok tree => exact run_bind_of_ok htree
  | error e => exact run_bind_of_error htree

theorem LoadFault.load_eq (h : LoadFault files read file e) :
    (load files file read).run.run = .error e := by
  cases h with
  | unreadable h => exact withTextAt_of_unreadable h
  | value htext h he =>
    have hentries := entriesOfText_fault_iff.2 ⟨_, h, he, rfl⟩
    exact (withTextAt_of_holdsText htext).trans (run_bind_of_error hentries.1)
  | source hd h => exact hd.load_eq h.schemaSource_eq
  | declarationValue hc h he =>
    rw [hc.load_eq, tree, (treeOf_fault_iff.2 (.inl ⟨_, h, he, rfl⟩)).1]
    rfl
  | endless hc hg h =>
    rw [hc.load_eq, tree, (treeOf_fault_iff.2 (.inr ⟨_, _, _, hg, h, rfl⟩)).1]
    rfl

theorem LoadFault.isFault (h : LoadFault files read file e) : e.IsFault := by
  cases h <;> trivial

theorem check_eq_ok {α : Type} {r : Except ConfigurationError α} {a : α}
    (h : (check r : ExceptT LoadError Id α).run.run = .ok a) : r = .ok a :=
  eq_ok_of_mapError_eq_ok ((check_run r).symm.trans h)

/-- A check that only refuses does not end in a fault. -/
theorem OnlyRefuses.not_isFault {α : Type} {r : Except ConfigurationError α} (hr : OnlyRefuses r)
    (h : (check r : ExceptT LoadError Id α).run.run = .error e) : ¬ e.IsFault := by
  obtain ⟨refusal, hrefusal, rfl⟩ := exists_of_mapError_eq_error ((check_run r).symm.trans h)
  exact hr refusal hrefusal

theorem exists_loads_of_load_eq_ok {c : Configuration} (h : (load files file read).run.run = .ok c) :
    ∃ tree, Loads files read file c tree := by
  rcases withTextAt_cases h with h | ⟨fault, -, h⟩ | ⟨text, htext, h⟩
  · cases h
  · cases h
  obtain ⟨⟨g, entries⟩, hentries, h⟩ := exists_of_run_bind_eq_ok h
  obtain ⟨d, hd, h⟩ := exists_of_run_bind_eq_ok h
  obtain ⟨schema, hschema, h⟩ := exists_of_run_bind_eq_ok h
  obtain ⟨declaration, hdeclaration, h⟩ := exists_of_run_bind_eq_ok h
  obtain ⟨depth, hdepth, h⟩ := exists_of_run_bind_eq_ok h
  obtain ⟨tree, htree, h⟩ := exists_of_run_bind_eq_ok h
  obtain ⟨hsource, hblank⟩ := schemaSource_eq_ok_iff.1 hschema
  obtain rfl := Except.ok.inj h
  exact ⟨tree, ⟨rfl, hblank, g, entries, d, ⟨text, htext, hentries, check_eq_ok hd⟩, hsource,
    check_eq_ok hdeclaration, check_eq_ok hdepth⟩, htree⟩

/-- The faults are looked for in the order of the steps; every other failure is a refusal. -/
theorem loadFault_of_load_eq_error (h : (load files file read).run.run = .error e) (he : e.IsFault) :
    LoadFault files read file e := by
  rcases withTextAt_cases h with h | ⟨fault, hfault, h⟩ | ⟨text, htext, h⟩
  · cases h
    cases he
  · cases h
    exact .unreadable hfault
  rcases eq_error_of_run_bind_eq_error h with h | ⟨⟨g, entries⟩, hentries, h⟩
  · obtain ⟨fault, hread, hfault, rfl⟩ := entriesOfText_fault_iff.1 ⟨h, he⟩
    exact .value htext hread hfault
  rcases eq_error_of_run_bind_eq_error h with h | ⟨d, hd, h⟩
  · exact absurd he (onlyRefuses_schemaDefinition.not_isFault h)
  have hdefines : Defines files read file g entries d := ⟨text, htext, hentries, check_eq_ok hd⟩
  rcases eq_error_of_run_bind_eq_error h with h | ⟨schema, hschema, h⟩
  · obtain ⟨fault, hfault, rfl⟩ := schemaSource_fault_iff.1 ⟨h, he⟩
    exact .source hdefines hfault
  obtain ⟨hsource, hblank⟩ := schemaSource_eq_ok_iff.1 hschema
  rcases eq_error_of_run_bind_eq_error h with h | ⟨declaration, hdeclaration, h⟩
  · exact absurd he (onlyRefuses_declarationSettings.not_isFault h)
  rcases eq_error_of_run_bind_eq_error h with h | ⟨depth, hdepth, h⟩
  · exact absurd he (onlyRefuses_searchDepth.not_isFault h)
  have hsettles : Settles files read file ⟨file, schema, declaration, depth⟩ :=
    ⟨rfl, hblank, g, entries, d, hdefines, hsource, check_eq_ok hdeclaration, check_eq_ok hdepth⟩
  rcases eq_error_of_run_bind_eq_error h with h | ⟨tree, -, h⟩
  · rcases treeOf_fault_iff.1 ⟨h, he⟩ with
      ⟨fault, hread, hfault, rfl⟩ | ⟨g, _, _, hg, hendless, rfl⟩
    · exact .declarationValue hsettles hread hfault
    · exact .endless hsettles hg hendless
  · cases h

theorem load_eq_ok_iff {c : Configuration} :
    (load files file read).run.run = .ok c ↔ ∃ tree, Loads files read file c tree := by
  refine ⟨exists_loads_of_load_eq_ok, fun h => ?_⟩
  obtain ⟨tree, h⟩ := h
  rw [h.toSettles.load_eq, h.tree_eq]
  rfl

theorem load_fault_iff :
    (load files file read).run.run = .error e ∧ e.IsFault ↔ LoadFault files read file e :=
  ⟨fun h => loadFault_of_load_eq_error h.1 h.2, fun h => ⟨h.load_eq, h.isFault⟩⟩

end Configuration
end SchemaAtlas
