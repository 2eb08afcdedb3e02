import SchemaAtlas.Configuration.Template
import SchemaAtlas.Proofs.Files.Reading

/-!
# Writing templates

A template is written where the files say that nothing stands. Each of the requests that this takes
may fail, and the first one that does is what keeps the template from being written.
-/
namespace SchemaAtlas.Configuration

variable {σ : Type} {fs : FileSystem (StateM σ)} {s s' : σ} {path : FilePath} {e : FileError}

/-- The template at the path, from the state on. -/
def writingAt (fs : FileSystem (StateM σ)) (s : σ) (path : FilePath) : Except FileError Unit × σ :=
  (fs.write path (.bytes template.toUTF8)).run s

/-- Nothing stands at the path, the template is written there, and it is told where that is. -/
def TemplateWritten (fs : FileSystem (StateM σ)) (s : σ) (path : FilePath) : Prop :=
  (fs.answers s).isPresent path = .ok false ∧ ∃ s' place,
    writingAt fs s path = (.ok (), s') ∧ (fs.answers s').resolve path = .ok place

/-- Something stands at the path, and it is told where that is. -/
def TemplateRefused (fs : FileSystem (StateM σ)) (s : σ) (path : FilePath) : Prop :=
  (fs.answers s).isPresent path = .ok true ∧ ∃ place, (fs.answers s).resolve path = .ok place

/-- One of the requests that a template takes fails. -/
inductive TemplateFault (fs : FileSystem (StateM σ)) (s : σ) (path : FilePath) : FileError → Prop
  | presence {e : FileError} (h : (fs.answers s).isPresent path = .error e) :
      TemplateFault fs s path e
  | unresolved {e : FileError} (h : (fs.answers s).isPresent path = .ok true)
      (hplace : (fs.answers s).resolve path = .error e) : TemplateFault fs s path e
  | unwritten {e : FileError} {s' : σ} (h : (fs.answers s).isPresent path = .ok false)
      (hwrite : writingAt fs s path = (.error e, s')) : TemplateFault fs s path e
  | unresolvedAfter {e : FileError} {s' : σ} (h : (fs.answers s).isPresent path = .ok false)
      (hwrite : writingAt fs s path = (.ok (), s'))
      (hplace : (fs.answers s').resolve path = .error e) : TemplateFault fs s path e

theorem template_cases (fs : FileSystem (StateM σ)) (s : σ) (path : FilePath) :
    TemplateWritten fs s path ∨ TemplateRefused fs s path ∨ ∃ e, TemplateFault fs s path e := by
  cases hpresent : (fs.answers s).isPresent path with
  | error e => exact .inr (.inr ⟨e, .presence hpresent⟩)
  | ok present =>
    cases present with
    | true =>
      cases hplace : (fs.answers s).resolve path with
      | error e => exact .inr (.inr ⟨e, .unresolved hpresent hplace⟩)
      | ok place => exact .inr (.inl ⟨hpresent, place, hplace⟩)
    | false =>
      cases hwrite : writingAt fs s path with
      | mk result s' =>
        cases result with
        | error e => exact .inr (.inr ⟨e, .unwritten hpresent hwrite⟩)
        | ok done =>
          cases hplace : (fs.answers s').resolve path with
          | error e => exact .inr (.inr ⟨e, .unresolvedAfter hpresent hwrite hplace⟩)
          | ok place => exact .inl ⟨hpresent, s', place, hwrite, hplace⟩

section Runs

variable (hfs : fs.Steady)

include hfs

theorem runOn_resolve {r : Except FileError FilePath} (h : (fs.answers s).resolve path = r) :
    ((ExceptT.mk (fs.resolve path)).adapt TemplateError.file).run.run s =
      (r.mapError .file, s) := by
  refine runOn_adapt TemplateError.file ((hfs.onlyReads_resolve s path).trans ?_)
  exact congrArg (·, s) h

theorem runOn_presence {r : Except FileError Bool} (h : (fs.answers s).isPresent path = r) :
    ((ExceptT.mk (fs.isPresent path)).adapt TemplateError.file).run.run s =
      (r.mapError .file, s) := by
  refine runOn_adapt TemplateError.file ((hfs.onlyReads_isPresent s path).trans ?_)
  exact congrArg (·, s) h

theorem runOn_writeTemplate_of_present (h : (fs.answers s).isPresent path = .ok true)
    {r : Except FileError FilePath} (hplace : (fs.answers s).resolve path = r) :
    (writeTemplate fs path).run.run s =
      ((r.mapError TemplateError.file).bind fun place => .error (.alreadyExists place), s) := by
  refine (runOn_bind_of_ok (runOn_presence hfs h)).trans ?_
  have hresolve := runOn_resolve hfs hplace
  cases r with
  | error e => exact runOn_bind_of_error hresolve
  | ok place => exact (runOn_bind_of_ok hresolve).trans (runOn_bind_of_error rfl)

theorem runOn_writeTemplate_of_written (h : (fs.answers s).isPresent path = .ok false)
    (hwrite : writingAt fs s path = (.ok (), s')) :
    (writeTemplate fs path).run.run s =
      (((fs.answers s').resolve path).run.mapError TemplateError.file, s') := by
  refine (runOn_bind_of_ok (runOn_presence hfs h)).trans ?_
  exact (runOn_bind_of_ok (runOn_adapt TemplateError.file hwrite)).trans (runOn_resolve hfs rfl)

theorem TemplateWritten.exists_run_eq (h : TemplateWritten fs s path) :
    ∃ place, ((writeTemplate fs path).run.run s).1 = .ok place := by
  obtain ⟨hpresent, s', place, hwrite, hplace⟩ := h
  refine ⟨place, ?_⟩
  rw [runOn_writeTemplate_of_written hfs hpresent hwrite]
  exact congrArg (Except.mapError TemplateError.file) hplace

theorem TemplateRefused.exists_run_eq (h : TemplateRefused fs s path) :
    ∃ place, ((writeTemplate fs path).run.run s).1 = .error (.alreadyExists place) := by
  obtain ⟨hpresent, place, hplace⟩ := h
  exact ⟨place, congrArg Prod.fst (runOn_writeTemplate_of_present hfs hpresent hplace)⟩

theorem TemplateFault.run_eq (h : TemplateFault fs s path e) :
    ((writeTemplate fs path).run.run s).1 = .error (.file e) := by
  cases h with
  | presence h => exact congrArg Prod.fst (runOn_bind_of_error (runOn_presence hfs h))
  | unresolved h hplace =>
    exact congrArg Prod.fst (runOn_writeTemplate_of_present hfs h hplace)
  | unwritten h hwrite =>
    rw [writeTemplate, runOn_bind_of_ok (runOn_presence hfs h)]
    exact congrArg Prod.fst (runOn_bind_of_error (runOn_adapt TemplateError.file hwrite))
  | unresolvedAfter h hwrite hplace =>
    rw [runOn_writeTemplate_of_written hfs h hwrite]
    exact congrArg (Except.mapError TemplateError.file) hplace

end Runs

end SchemaAtlas.Configuration
