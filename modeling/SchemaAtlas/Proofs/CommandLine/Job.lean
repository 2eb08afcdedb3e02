import SchemaAtlas.CommandLine.Run
import SchemaAtlas.Proofs.CommandLine.Filter
import SchemaAtlas.Proofs.Configuration.Loading
import SchemaAtlas.Proofs.Files.Writing
import SchemaAtlas.Proofs.Workbook.Export

/-!
# Jobs

What becomes of a job: it is done, it fails with an explanation, or it is interrupted. A refused
configuration is explained, and so is a path or a filter that is none and an output that the system
does not let be written. A fault of loading, of a filter or of a cell is expected by no command, and
neither is a failure of the output that is not the system's. All of this is told by the answers of the
files in one state, by the data that texts are read as, and by the texts that no cell takes.
-/
namespace SchemaAtlas.CommandLine

open SchemaAtlas.Configuration

variable {σ : Type} {fs : FileSystem (StateM σ)} {s : σ} {read : Yaml.Parser} {fill : Cell.Filler}
  {α β : Type} {cause : Interruption}

/-! ### Inspections -/

/-- Whatever was reported before, the inspection has this result. -/
def Inspection.Gives (i : Inspection α) (r : Except Failure α) : Prop :=
  ∀ entries, (i.run.run entries).1 = r

namespace Inspection.Gives

theorem bind_ok {x : Inspection α} {f : α → Inspection β} {a : α} {r : Except Failure β}
    (hx : x.Gives (.ok a)) (hf : (f a).Gives r) : Inspection.Gives (x >>= f) r := by
  intro entries
  have hrun := hx entries
  rw [ExceptT.run_bind, StateT.run_bind]
  cases hresult : x.run.run entries with
  | mk result after =>
    rw [hresult] at hrun
    cases hrun
    exact hf after

theorem bind_error {x : Inspection α} {f : α → Inspection β} {e : Failure}
    (hx : x.Gives (.error e)) : Inspection.Gives (x >>= f) (.error e) := by
  intro entries
  have hrun := hx entries
  rw [ExceptT.run_bind, StateT.run_bind]
  cases hresult : x.run.run entries with
  | mk result after =>
    rw [hresult] at hrun
    cases hrun
    rfl

end Inspection.Gives

theorem gives_pure (a : α) : Inspection.Gives (pure a) (.ok a) := fun _ => rfl

theorem gives_result (r : Except Failure α) : Inspection.Gives (ExceptT.mk (pure r)) r :=
  fun _ => rfl

/-- A path that is none is explained. -/
def explainedPath (r : Except PathError α) : Except Failure α :=
  r.mapError fun e => .explained e.message

theorem gives_parsePath (allowWildcards : Bool) (path : Value) :
    (inspect (Action.parsePath allowWildcards path)).Gives
      (explainedPath (Path.ofValue allowWildcards path)) := by
  intro entries
  unfold inspect Action.parsePath
  cases Path.ofValue allowWildcards path <;> rfl

theorem gives_unionAt (tree : SchemaTree) (p : Path) :
    (inspect (Action.unionAt tree p)).Gives (.ok (tree.unionAt p)) := fun _ => rfl

theorem gives_resolveJob (tree : SchemaTree) (isLiteral : Bool) (path : String) :
    (resolveJob tree isLiteral path).Gives
      ((explainedPath (Path.ofValue (!isLiteral) (.text path))).map tree.unionAt) := by
  have hpath := gives_parsePath (!isLiteral) (.text path)
  cases h : Path.ofValue (!isLiteral) (.text path) with
  | ok p =>
    rw [h] at hpath
    exact hpath.bind_ok (gives_unionAt tree p)
  | error e =>
    rw [h] at hpath
    exact hpath.bind_error

theorem gives_groupJob (tree : SchemaTree) {depth : Int} (hdepth : 0 < depth) (name : String) :
    (groupJob tree depth name).Gives
      ((explainedPath (Path.groupNameOfValue (.text name))).map fun found =>
        tree.groupUnion found depth.toNat) := by
  intro entries
  have hlevels : SchemaTree.checkDepth depth = .ok depth.toNat := if_neg (Int.not_le.2 hdepth)
  unfold groupJob inspect Action.collectionGroup
  rw [hlevels]
  cases Path.groupNameOfValue (.text name) <;> rfl

/-- The predicates of a command line are looked at one after the other. -/
theorem gives_predicates (read : Yaml.Parser) (clauses : List String) :
    Inspection.Gives
      (clauses.mapM fun clause =>
        (ExceptT.mk (pure ((predicateOf clause read).mapError .ofFilterError)) :
          Inspection Predicate))
      ((clauses.mapM fun clause => predicateOf clause read).mapError .ofFilterError) := by
  induction clauses with
  | nil => exact gives_pure []
  | cons clause clauses ih =>
    rw [List.mapM_cons, List.mapM_cons]
    cases hclause : predicateOf clause read with
    | error e => exact (gives_result (.error (.ofFilterError e))).bind_error
    | ok p =>
      refine (gives_result (.ok p)).bind_ok ?_
      cases hclauses : clauses.mapM fun clause => predicateOf clause read with
      | error e =>
        rw [hclauses] at ih
        exact ih.bind_error
      | ok ps =>
        rw [hclauses] at ih
        exact ih.bind_ok (gives_pure _)

theorem gives_narrowAll {u w : SchemaUnion} {ps : List Predicate} (h : u.narrowAll ps = .ok w) :
    (inspect (Action.narrowAll u ps)).Gives (.ok w) := by
  intro entries
  unfold inspect Action.narrowAll
  rw [h]
  rfl

theorem gives_narrowJob_error {tree : SchemaTree} {clauses selected : List String} {path : String}
    {e : FilterError} (h : (clauses.mapM fun clause => predicateOf clause read) = .error e) :
    (narrowJob tree read clauses selected path).Gives (.error (.ofFilterError e)) := by
  have hpredicates := gives_predicates read clauses
  rw [h] at hpredicates
  exact hpredicates.bind_error

/-- Predicates on values never fail, so only the path is left to be looked at. -/
theorem exists_gives_narrowJob (tree : SchemaTree) {clauses : List String} (selected : List String)
    (path : String) {ps : List Predicate}
    (h : (clauses.mapM fun clause => predicateOf clause read) = .ok ps) :
    ∃ f, (narrowJob tree read clauses selected path).Gives
      ((explainedPath (Path.ofValue true (.text path))).map f) := by
  have hpredicates := gives_predicates read clauses
  rw [h] at hpredicates
  have hpath := gives_parsePath true (.text path)
  cases hp : Path.ofValue true (.text path) with
  | error e =>
    rw [hp] at hpath
    exact ⟨fun _ => .empty, hpredicates.bind_ok hpath.bind_error⟩
  | ok p =>
    rw [hp] at hpath
    have hps : ∀ q ∈ ps, q.Evaluable := by
      intro q hq
      obtain ⟨clause, -, hclause⟩ := (forall_of_mapM_eq_ok h).2 q hq
      exact (ofValue_predicateOf hclause).evaluable
    obtain ⟨w, hw⟩ := (tree.unionAt p).exists_narrowAll hps
    exact ⟨fun _ => _, hpredicates.bind_ok <| hpath.bind_ok <|
      (gives_unionAt tree p).bind_ok <| (gives_narrowAll hw).bind_ok (gives_pure _)⟩

/-- What an inspection gives is printed, or it is how the performance fails. -/
theorem result_ofInspection {i : Inspection SchemaUnion} {r : Except Failure SchemaUnion}
    (h : i.Gives r) : (Performance.ofInspection i).result = r.map fun u => (report u).render := by
  have hrun : (i []).1 = r := h []
  rw [← hrun]
  rfl

section Explained

variable {i : Inspection SchemaUnion} {r : Except PathError α} {f : α → SchemaUnion}

/-- Where only a path is looked at, a result is printed just when the path is one. -/
theorem exists_result_ofInspection_iff (h : i.Gives ((explainedPath r).map f)) :
    (∃ text, (Performance.ofInspection i).result = .ok text) ↔ ∃ a, r = .ok a := by
  rw [result_ofInspection h]
  cases r with
  | ok a => exact ⟨fun _ => ⟨a, rfl⟩, fun _ => ⟨_, rfl⟩⟩
  | error e => exact ⟨nofun, nofun⟩

theorem result_ofInspection_ne_interrupted (h : i.Gives ((explainedPath r).map f)) :
    (Performance.ofInspection i).result ≠ .error (.interrupted cause) := by
  rw [result_ofInspection h]
  cases r <;> exact nofun

end Explained

/-! ### Jobs -/

/-- The configuration of a job cannot be loaded, and that is no refusal of it. -/
def LoadInterrupted (files : FileSystem Id) (read : Yaml.Parser) (config : String)
    (cause : Interruption) : Prop :=
  ∃ e, LoadFault files read (.ofText config) e ∧ Failure.ofLoadError e = .interrupted cause

theorem isFault_iff {e : LoadError} :
    e.IsFault ↔ ∃ cause, Failure.ofLoadError e = .interrupted cause := by
  cases e with
  | file error => exact ⟨fun _ => ⟨_, rfl⟩, fun _ => trivial⟩
  | value error => exact ⟨fun _ => ⟨_, rfl⟩, fun _ => trivial⟩
  | configuration error =>
    cases error with
    | declaration error =>
      cases error with
      | fieldType document field error =>
        cases error with
        | endless => exact ⟨fun _ => ⟨_, rfl⟩, fun _ => trivial⟩
        | _ => exact ⟨nofun, nofun⟩
      | _ => exact ⟨nofun, nofun⟩
    | _ => exact ⟨nofun, nofun⟩

theorem filterError_isFault_iff {e : FilterError} :
    e.IsFault ↔ ∃ cause, Failure.ofFilterError e = .interrupted cause := by
  cases e with
  | value error => exact ⟨fun _ => ⟨_, rfl⟩, fun _ => trivial⟩
  | query error =>
    cases error with
    | endlessValue => exact ⟨fun _ => ⟨_, rfl⟩, fun _ => trivial⟩
    | _ => exact ⟨nofun, nofun⟩
  | _ => exact ⟨nofun, nofun⟩

theorem ofFileError_eq_interrupted_iff {e : FileError} :
    Failure.ofFileError e = .interrupted cause ↔
      e.isReportedBySystem = false ∧ cause = .file e := by
  unfold Failure.ofFileError
  split
  · rename_i h
    simp only [h, reduceCtorEq, false_and]
  · rename_i h
    rw [Bool.not_eq_true] at h
    simp only [h, Failure.interrupted.injEq, true_and, eq_comm]

section Written

variable {ε : Type} {r : Except ε FilePath} {failure : ε → Failure}

theorem exists_written_iff :
    (∃ text, (written r failure).result = .ok text) ↔ ∃ place, r = .ok place := by
  cases r with
  | ok place => exact ⟨fun _ => ⟨place, rfl⟩, fun _ => ⟨_, rfl⟩⟩
  | error e => exact ⟨nofun, nofun⟩

theorem written_eq_interrupted_iff :
    (written r failure).result = .error (.interrupted cause) ↔
      ∃ e, r = .error e ∧ failure e = .interrupted cause := by
  cases r with
  | ok place => exact ⟨nofun, nofun⟩
  | error e => simp [written, Except.mapError, Except.map]

end Written

section WithTree

variable {config : String} {c : Configuration} {tree : SchemaTree}
  {go : Configuration → SchemaTree → StateM σ Performance} (hfs : fs.Steady)

include hfs

theorem withTree_of_error {e : LoadError}
    (h : (load (fs.answers s) (.ofText config) read).run.run = .error e) :
    (withTree fs read config go).run s = (.failed (.ofLoadError e), s) := by
  have hload : (load fs (.ofText config) read).run.run s = (.error e, s) := by
    rw [onlyReads_load hfs, h]
  unfold withTree
  rw [StateT.run_bind, hload]
  rfl

theorem withTree_of_loads (h : Loads (fs.answers s) read (.ofText config) c tree) :
    (withTree fs read config go).run s = (go c tree).run s := by
  have hload : (load fs (.ofText config) read).run.run s = (pure (.ok c, s) : Id _) := by
    rw [onlyReads_load hfs, load_eq_ok_iff.2 ⟨tree, h⟩]
    rfl
  unfold withTree
  rw [StateT.run_bind, hload, pure_bind]
  simp only [h.tree_eq]

theorem withTree_done_iff :
    (∃ text, ((withTree fs read config go).run s).1.result = .ok text) ↔
      ∃ c tree, Loads (fs.answers s) read (.ofText config) c tree ∧
        ∃ text, ((go c tree).run s).1.result = .ok text := by
  constructor
  · rintro ⟨text, h⟩
    cases hload : (load (fs.answers s) (.ofText config) read).run.run with
    | error e =>
      rw [withTree_of_error hfs hload] at h
      cases h
    | ok c =>
      obtain ⟨tree, hloads⟩ := load_eq_ok_iff.1 hload
      rw [withTree_of_loads hfs hloads] at h
      exact ⟨c, tree, hloads, text, h⟩
  · rintro ⟨c, tree, hloads, text, h⟩
    rw [withTree_of_loads hfs hloads]
    exact ⟨text, h⟩

theorem withTree_interrupted_iff :
    ((withTree fs read config go).run s).1.result = .error (.interrupted cause) ↔
      LoadInterrupted (fs.answers s) read config cause ∨
        ∃ c tree, Loads (fs.answers s) read (.ofText config) c tree ∧
          ((go c tree).run s).1.result = .error (.interrupted cause) := by
  constructor
  · intro h
    cases hload : (load (fs.answers s) (.ofText config) read).run.run with
    | error e =>
      rw [withTree_of_error hfs hload] at h
      have hcause : Failure.ofLoadError e = .interrupted cause := Except.error.inj h
      exact .inl ⟨e, load_fault_iff.1 ⟨hload, isFault_iff.2 ⟨cause, hcause⟩⟩, hcause⟩
    | ok c =>
      obtain ⟨tree, hloads⟩ := load_eq_ok_iff.1 hload
      rw [withTree_of_loads hfs hloads] at h
      exact .inr ⟨c, tree, hloads, h⟩
  · rintro (⟨e, he, hcause⟩ | ⟨c, tree, hloads, h⟩)
    · rw [withTree_of_error hfs he.load_eq]
      exact congrArg _ hcause
    · rw [withTree_of_loads hfs hloads]
      exact h

end WithTree

/-- The job does what it is asked for. -/
def Job.Done (fs : FileSystem (StateM σ)) (read : Yaml.Parser) (fill : Cell.Filler) (s : σ) :
    Job → Prop
  | .resolve config isLiteral path =>
    ∃ c tree, Loads (fs.answers s) read (.ofText config) c tree ∧
      ∃ p, Path.ofValue (!isLiteral) (.text path) = .ok p
  | .collectionGroup config name =>
    ∃ c tree, Loads (fs.answers s) read (.ofText config) c tree ∧
      ∃ found, Path.groupNameOfValue (.text name) = .ok found
  | .narrow config clauses _ path =>
    ∃ c tree, Loads (fs.answers s) read (.ofText config) c tree ∧
      (∀ clause ∈ clauses, IsFilter read clause) ∧ ∃ p, Path.ofValue true (.text path) = .ok p
  | .exportInventory config output =>
    ∃ c tree, Loads (fs.answers s) read (.ofText config) c tree ∧
      ∃ workbook, Workbook.ofTree tree fill = .ok workbook ∧
        ∃ place, ((SchemaTree.writeWorkbook fs workbook (.ofText output)).run.run s).1 = .ok place
  | .generateConfig output => TemplateWritten fs s (.ofText output)

/-- The job is interrupted by something that no command expects. -/
def Job.Interrupted (fs : FileSystem (StateM σ)) (read : Yaml.Parser) (fill : Cell.Filler) (s : σ)
    (cause : Interruption) : Job → Prop
  | .resolve config _ _ | .collectionGroup config _ =>
    LoadInterrupted (fs.answers s) read config cause
  | .narrow config clauses _ _ =>
    LoadInterrupted (fs.answers s) read config cause ∨
      ∃ c tree, Loads (fs.answers s) read (.ofText config) c tree ∧
        ∃ clause e, FirstWith (fun clause => ¬ IsFilter read clause) clauses clause ∧
          FilterFault read clause e ∧ Failure.ofFilterError e = .interrupted cause
  | .exportInventory config output =>
    LoadInterrupted (fs.answers s) read config cause ∨
      ∃ c tree, Loads (fs.answers s) read (.ofText config) c tree ∧
        ((∃ text e, FirstWith (Cell.Refused? fill) (Workbook.cellTexts tree) (some text) ∧
            fill text = .error e ∧ cause = .cell e) ∨
          ∃ workbook e, Workbook.ofTree tree fill = .ok workbook ∧
            ((SchemaTree.writeWorkbook fs workbook (.ofText output)).run.run s).1 = .error e ∧
            e.isReportedBySystem = false ∧ cause = .file e)
  | .generateConfig output =>
    ∃ e, TemplateFault fs s (.ofText output) e ∧ e.isReportedBySystem = false ∧ cause = .file e

/-! ### What the jobs come to -/

section Jobs

variable (hfs : fs.Steady) {config path : String}

include hfs

theorem done_resolve_iff {isLiteral : Bool} :
    (∃ text, ((Job.perform fs read fill (.resolve config isLiteral path)).run s).1.result = .ok text) ↔
      (Job.resolve config isLiteral path).Done fs read fill s := by
  refine (withTree_done_iff hfs).trans ?_
  refine exists_congr fun c => exists_congr fun tree => and_congr_right fun hloads => ?_
  exact exists_result_ofInspection_iff (gives_resolveJob tree isLiteral path)

theorem interrupted_resolve_iff {isLiteral : Bool} :
    ((Job.perform fs read fill (.resolve config isLiteral path)).run s).1.result =
        .error (.interrupted cause) ↔
      (Job.resolve config isLiteral path).Interrupted fs read fill s cause := by
  refine (withTree_interrupted_iff hfs).trans (or_iff_left ?_)
  rintro ⟨c, tree, -, h⟩
  exact result_ofInspection_ne_interrupted (gives_resolveJob tree isLiteral path) h

theorem done_collectionGroup_iff {name : String} :
    (∃ text, ((Job.perform fs read fill (.collectionGroup config name)).run s).1.result = .ok text) ↔
      (Job.collectionGroup config name).Done fs read fill s := by
  refine (withTree_done_iff hfs).trans ?_
  refine exists_congr fun c => exists_congr fun tree => and_congr_right fun hloads => ?_
  exact exists_result_ofInspection_iff (gives_groupJob tree hloads.depth_pos name)

theorem interrupted_collectionGroup_iff {name : String} :
    ((Job.perform fs read fill (.collectionGroup config name)).run s).1.result =
        .error (.interrupted cause) ↔
      (Job.collectionGroup config name).Interrupted fs read fill s cause := by
  refine (withTree_interrupted_iff hfs).trans (or_iff_left ?_)
  rintro ⟨c, tree, hloads, h⟩
  exact result_ofInspection_ne_interrupted (gives_groupJob tree hloads.depth_pos name) h

theorem done_narrow_iff {clauses selected : List String} :
    (∃ text, ((Job.perform fs read fill (.narrow config clauses selected path)).run s).1.result =
        .ok text) ↔
      (Job.narrow config clauses selected path).Done fs read fill s := by
  refine (withTree_done_iff hfs).trans ?_
  refine exists_congr fun c => exists_congr fun tree => and_congr_right fun hloads => ?_
  change (∃ text, (Performance.ofInspection (narrowJob tree read clauses selected path)).result =
    .ok text) ↔ _
  cases hpredicates : clauses.mapM fun clause => predicateOf clause read with
  | error e =>
    obtain ⟨clause, hfirst, -⟩ := mapM_predicateOf_eq_error_iff.1 hpredicates
    rw [result_ofInspection (gives_narrowJob_error hpredicates)]
    exact ⟨nofun, fun h => absurd (h.1 clause hfirst.mem) hfirst.pos⟩
  | ok ps =>
    have hfilters : ∀ clause ∈ clauses, IsFilter read clause := (forall_of_mapM_eq_ok hpredicates).1
    obtain ⟨f, hf⟩ := exists_gives_narrowJob tree selected path hpredicates
    rw [and_iff_right hfilters]
    exact exists_result_ofInspection_iff hf

theorem interrupted_narrow_iff {clauses selected : List String} :
    ((Job.perform fs read fill (.narrow config clauses selected path)).run s).1.result =
        .error (.interrupted cause) ↔
      (Job.narrow config clauses selected path).Interrupted fs read fill s cause := by
  refine (withTree_interrupted_iff hfs).trans (or_congr_right ?_)
  refine exists_congr fun c => exists_congr fun tree => and_congr_right fun hloads => ?_
  change (Performance.ofInspection (narrowJob tree read clauses selected path)).result = _ ↔ _
  constructor
  · intro h
    cases hpredicates : clauses.mapM fun clause => predicateOf clause read with
    | error e =>
      rw [result_ofInspection (gives_narrowJob_error hpredicates)] at h
      have hcause : Failure.ofFilterError e = .interrupted cause := Except.error.inj h
      obtain ⟨clause, hfirst, he⟩ := mapM_predicateOf_eq_error_iff.1 hpredicates
      have hfault := predicateOf_fault_iff.1 ⟨he, filterError_isFault_iff.2 ⟨cause, hcause⟩⟩
      exact ⟨clause, e, hfirst, hfault, hcause⟩
    | ok ps =>
      obtain ⟨f, hf⟩ := exists_gives_narrowJob tree selected path hpredicates
      exact absurd h (result_ofInspection_ne_interrupted hf)
  · rintro ⟨clause, e, hfirst, he, hcause⟩
    have hpredicates := mapM_predicateOf_eq_error_iff.2 ⟨clause, hfirst, he.predicateOf_eq⟩
    rw [result_ofInspection (gives_narrowJob_error hpredicates)]
    exact congrArg _ hcause

theorem done_exportInventory_iff {output : String} :
    (∃ text, ((Job.perform fs read fill (.exportInventory config output)).run s).1.result =
        .ok text) ↔
      (Job.exportInventory config output).Done fs read fill s := by
  refine (withTree_done_iff hfs).trans ?_
  refine exists_congr fun c => exists_congr fun tree => and_congr_right fun hloads => ?_
  refine exists_written_iff.trans ?_
  change (∃ place, ((tree.writeInventory fs (.ofText output) fill).run.run s).1 = .ok place) ↔ _
  cases hworkbook : Workbook.ofTree tree fill with
  | error e =>
    rw [SchemaTree.run_writeInventory_of_error fs s hworkbook]
    exact ⟨nofun, nofun⟩
  | ok workbook =>
    rw [SchemaTree.run_writeInventory_of_ok fs s hworkbook]
    constructor
    · rintro ⟨place, h⟩
      exact ⟨workbook, rfl, place, eq_ok_of_mapError_eq_ok h⟩
    · rintro ⟨_, h, place, hplace⟩
      cases h
      exact ⟨place, congrArg (Except.mapError ExportError.file) hplace⟩

theorem interrupted_exportInventory_iff {output : String} :
    ((Job.perform fs read fill (.exportInventory config output)).run s).1.result =
        .error (.interrupted cause) ↔
      (Job.exportInventory config output).Interrupted fs read fill s cause := by
  refine (withTree_interrupted_iff hfs).trans (or_congr_right ?_)
  refine exists_congr fun c => exists_congr fun tree => and_congr_right fun hloads => ?_
  refine written_eq_interrupted_iff.trans ?_
  change (∃ e, ((tree.writeInventory fs (.ofText output) fill).run.run s).1 = .error e ∧ _) ↔ _
  constructor
  · rintro ⟨e, h, he⟩
    cases e with
    | cell e =>
      have hworkbook := (SchemaTree.run_writeInventory_eq_cell_iff fs s).1 h
      obtain ⟨text, hfirst, htext⟩ := Workbook.ofTree_eq_error_iff.1 hworkbook
      cases he
      exact .inl ⟨text, e, hfirst, htext, rfl⟩
    | file e =>
      obtain ⟨workbook, hworkbook, hwrite⟩ := (SchemaTree.run_writeInventory_eq_file_iff fs s).1 h
      obtain ⟨hreported, rfl⟩ := ofFileError_eq_interrupted_iff.1 he
      exact .inr ⟨workbook, e, hworkbook, hwrite, hreported, rfl⟩
  · rintro (⟨text, e, hfirst, htext, rfl⟩ | ⟨workbook, e, hworkbook, hwrite, hreported, rfl⟩)
    · have hworkbook := Workbook.ofTree_eq_error_iff.2 ⟨text, hfirst, htext⟩
      exact ⟨.cell e, (SchemaTree.run_writeInventory_eq_cell_iff fs s).2 hworkbook, rfl⟩
    · refine ⟨.file e, ?_, ofFileError_eq_interrupted_iff.2 ⟨hreported, rfl⟩⟩
      exact (SchemaTree.run_writeInventory_eq_file_iff fs s).2 ⟨workbook, hworkbook, hwrite⟩

theorem done_generateConfig_iff {output : String} :
    (∃ text, ((Job.perform fs read fill (.generateConfig output)).run s).1.result = .ok text) ↔
      (Job.generateConfig output).Done fs read fill s := by
  refine exists_written_iff.trans ?_
  change (∃ place, ((writeTemplate fs (.ofText output)).run.run s).1 = .ok place) ↔ _
  refine ⟨fun ⟨place, h⟩ => ?_, fun h => TemplateWritten.exists_run_eq hfs h⟩
  rcases template_cases fs s (.ofText output) with hwritten | hrefused | ⟨e, he⟩
  · exact hwritten
  · obtain ⟨other, hother⟩ := hrefused.exists_run_eq hfs
    cases h.symm.trans hother
  · cases h.symm.trans (he.run_eq hfs)

theorem interrupted_generateConfig_iff {output : String} :
    ((Job.perform fs read fill (.generateConfig output)).run s).1.result =
        .error (.interrupted cause) ↔
      (Job.generateConfig output).Interrupted fs read fill s cause := by
  refine written_eq_interrupted_iff.trans ?_
  change (∃ e, ((writeTemplate fs (.ofText output)).run.run s).1 = .error e ∧ _) ↔ _
  constructor
  · rintro ⟨e, h, he⟩
    rcases template_cases fs s (.ofText output) with hwritten | hrefused | ⟨fault, hfault⟩
    · obtain ⟨place, hplace⟩ := hwritten.exists_run_eq hfs
      cases h.symm.trans hplace
    · obtain ⟨place, hplace⟩ := hrefused.exists_run_eq hfs
      cases h.symm.trans hplace
      cases he
    · cases h.symm.trans (hfault.run_eq hfs)
      exact ⟨fault, hfault, ofFileError_eq_interrupted_iff.1 he⟩
  · rintro ⟨fault, hfault, hcause⟩
    exact ⟨.file fault, hfault.run_eq hfs, ofFileError_eq_interrupted_iff.2 hcause⟩

end Jobs

/-- A job comes to its end just when nothing stands in its way. -/
theorem done_iff (hfs : fs.Steady) {job : Job} :
    (∃ text, ((job.perform fs read fill).run s).1.result = .ok text) ↔
      job.Done fs read fill s := by
  cases job with
  | resolve => exact done_resolve_iff hfs
  | collectionGroup => exact done_collectionGroup_iff hfs
  | narrow => exact done_narrow_iff hfs
  | exportInventory => exact done_exportInventory_iff hfs
  | generateConfig => exact done_generateConfig_iff hfs

theorem interrupted_iff (hfs : fs.Steady) {job : Job} :
    ((job.perform fs read fill).run s).1.result = .error (.interrupted cause) ↔
      job.Interrupted fs read fill s cause := by
  cases job with
  | resolve => exact interrupted_resolve_iff hfs
  | collectionGroup => exact interrupted_collectionGroup_iff hfs
  | narrow => exact interrupted_narrow_iff hfs
  | exportInventory => exact interrupted_exportInventory_iff hfs
  | generateConfig => exact interrupted_generateConfig_iff hfs

end SchemaAtlas.CommandLine
