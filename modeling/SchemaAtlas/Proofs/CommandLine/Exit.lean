import SchemaAtlas.Files.Tree
import SchemaAtlas.Proofs.CommandLine.Job

/-!
# Exit codes

What a run of the program ends with. A job that is done or that fails with an explanation has an exit
code, and so has a command line that asks for a text or is wrong. A run that is interrupted ends
without one. How words are told apart, how texts are read as data, which texts fit into a cell and how
the files answer is left open: a file system only has to stay as it is while it is read.
-/
namespace SchemaAtlas.CommandLine

variable {cause : Interruption}

/-- The exit code that the end of a job leads to. -/
def exitCodeOf : Except Failure String → Except Interruption Nat
  | .ok _ => .ok 0
  | .error (.explained _) => .ok 1
  | .error (.interrupted cause) => .error cause

theorem output_result (level : LogLevel) (p : Performance) :
    (p.output level).result = exitCodeOf p.result := by
  unfold Performance.output
  cases p.result with
  | ok text => rfl
  | error failure => cases failure <;> rfl

theorem exitCodeOf_eq_zero_iff {r : Except Failure String} :
    exitCodeOf r = .ok 0 ↔ ∃ text, r = .ok text := by
  rcases r with (message | cause) | text
  · exact ⟨nofun, nofun⟩
  · exact ⟨nofun, nofun⟩
  · exact ⟨fun _ => ⟨text, rfl⟩, fun _ => rfl⟩

theorem exitCodeOf_eq_error_iff {r : Except Failure String} :
    exitCodeOf r = .error cause ↔ r = .error (.interrupted cause) := by
  rcases r with (message | other) | text
  · exact ⟨nofun, nofun⟩
  · simp only [exitCodeOf, Except.error.injEq, Failure.interrupted.injEq]
  · exact ⟨nofun, nofun⟩

theorem le_one_of_exitCodeOf {r : Except Failure String} {code : Nat}
    (h : exitCodeOf r = .ok code) : code ≤ 1 := by
  rcases r with (message | cause) | text <;> cases h <;> decide

/-- A job that neither is done nor is interrupted has failed. -/
theorem exitCodeOf_eq_one {r : Except Failure String} (hdone : ¬ ∃ text, r = .ok text)
    (hcause : ∀ cause, r ≠ .error (.interrupted cause)) : exitCodeOf r = .ok 1 := by
  rcases r with (message | cause) | text
  · rfl
  · cases hcause cause rfl
  · cases hdone ⟨text, rfl⟩

/-- What a run of the program ends with, from a state of the files on. -/
def resultOn {σ : Type} (fs : FileSystem (StateM σ)) (parse : List String → StateM σ Request)
    (read : Yaml.Parser) (fill : Cell.Filler) (s : σ) (words : List String) :
    Except Interruption Nat :=
  ((run fs words parse read fill).run s).1.result

section Requests

variable {σ : Type} {fs : FileSystem (StateM σ)} {parse : List String → StateM σ Request}
  {read : Yaml.Parser} {fill : Cell.Filler} {s s' : σ} {words : List String} {request : Request}
  {level : LogLevel} {job : Job}

theorem resultOn_eq_answer (h : (parse words).run s = (request, s')) :
    resultOn fs parse read fill s words = ((request.answer fs read fill).run s').1.result := by
  have hparse : (parse words).run s = (pure (request, s') : Id _) := h
  rw [resultOn, run, StateT.run_bind, hparse, pure_bind]

theorem result_answer_inform {text : String} :
    (((Request.inform text).answer fs read fill).run s).1.result = .ok 0 := rfl

theorem result_answer_refuse {text : String} :
    (((Request.refuse text).answer fs read fill).run s).1.result = .ok 2 := rfl

theorem result_answer_interrupt {e : FileError} :
    (((Request.interrupt e).answer fs read fill).run s).1.result = .error (.file e) := rfl

theorem result_answer_perform :
    (((Request.perform level job).answer fs read fill).run s).1.result =
      exitCodeOf ((job.perform fs read fill).run s).1.result := by
  rw [← output_result level]
  rfl

variable (hfs : fs.Steady)

include hfs

theorem result_answer_eq_zero_iff :
    (((Request.perform level job).answer fs read fill).run s).1.result = .ok 0 ↔
      job.Done fs read fill s := by
  rw [result_answer_perform, exitCodeOf_eq_zero_iff]
  exact done_iff hfs

theorem result_answer_eq_error_iff :
    (((Request.perform level job).answer fs read fill).run s).1.result = .error cause ↔
      job.Interrupted fs read fill s cause := by
  rw [result_answer_perform, exitCodeOf_eq_error_iff]
  exact interrupted_iff hfs

theorem result_answer_eq_one_iff :
    (((Request.perform level job).answer fs read fill).run s).1.result = .ok 1 ↔
      ¬ job.Done fs read fill s ∧ ∀ cause, ¬ job.Interrupted fs read fill s cause := by
  constructor
  · intro hone
    refine ⟨fun hdone => ?_, fun cause hcause => ?_⟩
    · cases hone.symm.trans ((result_answer_eq_zero_iff hfs).2 hdone)
    · cases hone.symm.trans ((result_answer_eq_error_iff hfs).2 hcause)
  · rintro ⟨hdone, hcause⟩
    rw [result_answer_perform]
    exact exitCodeOf_eq_one (fun hr => hdone ((done_iff hfs).1 hr))
      fun cause hr => hcause cause ((interrupted_iff hfs).1 hr)

/--
A run ends with one of three exit codes unless it is interrupted. Zero stands for a text that was
asked for and for a job that is done; two for a command line that is wrong. A job that is not done
ends with one: the configuration is refused, the path or a filter is none, or the system does not let
the output be written. What interrupts it instead is in its files or in a filter: something that is
there and cannot be read as a text, data that cannot be read though the text is well formed, a field
type or a comparison that holds itself, a text that fits into no cell, or a name that no file can
have.
-/
theorem resultOn_iff (h : (parse words).run s = (request, s')) :
    (resultOn fs parse read fill s words = .ok 0 ↔
      (∃ text, request = .inform text) ∨
        ∃ level job, request = .perform level job ∧ job.Done fs read fill s') ∧
    (resultOn fs parse read fill s words = .ok 1 ↔
      ∃ level job, request = .perform level job ∧ ¬ job.Done fs read fill s' ∧
        ∀ cause, ¬ job.Interrupted fs read fill s' cause) ∧
    (resultOn fs parse read fill s words = .ok 2 ↔ ∃ text, request = .refuse text) ∧
    (∀ code, resultOn fs parse read fill s words = .ok code → code ≤ 2) ∧
    ∀ cause, resultOn fs parse read fill s words = .error cause ↔
      (∃ e, request = .interrupt e ∧ cause = .file e) ∨
        ∃ level job, request = .perform level job ∧ job.Interrupted fs read fill s' cause := by
  rw [resultOn_eq_answer h]
  cases request with
  | inform text => simp [result_answer_inform]
  | refuse text => simp [result_answer_refuse]
  | interrupt e => simp [result_answer_interrupt, eq_comm]
  | perform level job =>
    have hle (code : Nat)
        (hcode : (((Request.perform level job).answer fs read fill).run s').1.result = .ok code) :
        code ≤ 1 :=
      le_one_of_exitCodeOf (result_answer_perform.symm.trans hcode)
    have htwo : (((Request.perform level job).answer fs read fill).run s').1.result ≠ .ok 2 :=
      fun hcode => absurd (hle 2 hcode) (by decide)
    have hle := fun code hcode => Nat.le_succ_of_le (hle code hcode)
    simpa [result_answer_eq_zero_iff hfs, result_answer_eq_one_iff hfs,
      result_answer_eq_error_iff hfs, htwo] using hle

end Requests

/-- A tree of files stays as it is while it is read. -/
theorem steady_system : FileTree.system.Steady :=
  ⟨fun _ _ => rfl, fun _ _ => rfl, fun _ _ => rfl⟩

/-- A directory where a configuration should be. -/
def directoryTree : FileTree := ⟨[(["conf"], .directory)], []⟩

/-- The command line that asks for what is declared for users. -/
def usersWords : List String := ["resolve", "--config", "conf", "users"]

/-- The directory is there and cannot be read, which no command expects. -/
theorem resultOn_iff_directory :
    FileTree.system.Steady ∧
      resultOn FileTree.system (fun words => pure (.ofWords words)) Yaml.read Cell.ofText
        directoryTree usersWords = .error (.file (.isADirectory ⟨"", ["conf"]⟩)) := by
  have hwords : Request.ofWords usersWords = .perform .warning (.resolve "conf" false "users") := by
    decide +kernel
  have hparse : (pure (.ofWords usersWords) : StateM FileTree Request).run directoryTree =
      (.perform .warning (.resolve "conf" false "users"), directoryTree) :=
    congrArg (·, directoryTree) hwords
  have hpresent : directoryTree.isPresent (.ofText "conf") = true := by decide +kernel
  have hfault : Configuration.LoadFault (FileTree.system.answers directoryTree) Yaml.read
      (.ofText "conf") (.file (.isADirectory ⟨"", ["conf"]⟩)) :=
    .unreadable (.bytes (congrArg Except.ok hpresent) rfl)
  refine ⟨steady_system, ((resultOn_iff steady_system hparse).2.2.2.2 _).2 (.inr ?_)⟩
  exact ⟨_, _, rfl, _, hfault, rfl⟩

/-- However data are read, what reading the directory raises escapes. -/
theorem not_exitCode_of_run :
    ¬ ∀ (read : Yaml.Parser) (t : FileTree) (words : List String),
      (∀ text e, read text = .error e → e = .malformed) →
        ∃ code ≤ 2, resultOn FileTree.system (fun words => pure (.ofWords words)) read Cell.ofText t
          words = .ok code := by
  intro h
  -- a reader of data that has no other fault than a malformed text
  let read : Yaml.Parser := fun text => (Yaml.read text).mapError fun _ => .malformed
  have hread (text : String) (e : Yaml.YamlError) (he : read text = .error e) : e = .malformed := by
    obtain ⟨fault, -, rfl⟩ := exists_of_mapError_eq_error he
    rfl
  have hresult : resultOn FileTree.system (fun words => pure (.ofWords words)) read Cell.ofText
      directoryTree usersWords = .error (.file (.isADirectory ⟨"", ["conf"]⟩)) := by
    decide +kernel
  obtain ⟨code, -, hcode⟩ := h read directoryTree usersWords hread
  cases hresult.symm.trans hcode

end SchemaAtlas.CommandLine
