import SolidityBuild.Build
import Mathlib.Tactic.Choose

/-! # Logging: collecting sources tells no diagnostics

    What a build tells while it loads a project, follows imports and searches for files are log
    messages. So the diagnostics of a build come from its failed imports and from its compiler
    alone.
-/

namespace SolidityBuild

/-! ## Diagnostics among notices -/

namespace Notice

@[simp] theorem diagnostics_nil : diagnostics [] = [] :=
  rfl

@[simp] theorem diagnostics_append (told more : List Notice) :
    diagnostics (told ++ more) = diagnostics told ++ diagnostics more :=
  List.filterMap_append

/-- A log message is none, whatever its level. -/
@[simp] theorem diagnostics_log (level : Level) (text : String) (told : List Notice) :
    diagnostics (.log level text :: told) = diagnostics told :=
  rfl

/-- The diagnostics among diagnostics are all of them. -/
@[simp] theorem diagnostics_map_diagnostic (ds : List Diagnostic) :
    diagnostics (ds.map .diagnostic) = ds := by
  unfold diagnostics
  rw [List.filterMap_map]
  exact List.filterMap_some

/-- There are none among log messages. -/
theorem diagnostics_map_log (level : α → Level) (text : α → String) (xs : List α) :
    diagnostics (xs.map fun x => .log (level x) (text x)) = [] := by
  unfold diagnostics
  rw [List.filterMap_map]
  exact List.filterMap_eq_nil_iff.2 fun _ _ => rfl

theorem diagnostics_flatMap {told : α → List Notice} {xs : List α}
    (h : ∀ x ∈ xs, diagnostics (told x) = []) : diagnostics (xs.flatMap told) = [] := by
  induction xs with
  | nil => rfl
  | cons x xs ih =>
    rw [List.flatMap_cons, diagnostics_append, h x (List.mem_cons_self ..),
      ih fun y hy => h y (List.mem_cons_of_mem _ hy)]
    rfl

end Notice

open Notice (diagnostics diagnostics_flatMap diagnostics_map_log)

/-! ## Following imports -/

theorem Resolution.diagnostics_notices (project : Project) (importer : Path)
    (specifier : String) : diagnostics (notices project importer specifier) = [] := by
  unfold notices
  split
  · rfl
  · split <;> rfl

namespace Collection

variable (reader : SourceReader) (project : Project)

/-- Following one import tells no diagnostic. -/
theorem Progress.diagnostics_follow (importer : Path) (s : Progress) (specifier : String) :
    diagnostics (s.follow reader project importer specifier).notices =
      diagnostics s.notices := by
  -- Resolving tells log messages; each outcome adds at most one more.
  have htold : diagnostics (s.tell (Resolution.notices project importer specifier)).notices =
      diagnostics s.notices := by
    rw [Progress.tell, Notice.diagnostics_append, Resolution.diagnostics_notices,
      List.append_nil]
  unfold Progress.follow
  split
  · simp [Progress.fail, Notice.warn, htold]
  · dsimp only
    split
    · exact htold
    · unfold Progress.readNew
      split
      · simpa [Progress.depend, Progress.tell, Notice.debug] using htold
      · simp [Progress.fail, Notice.warn, htold]

theorem diagnostics_followAll (c : Collection) (doc : Document) :
    diagnostics (c.followAll reader project doc).notices = [] := by
  suffices h : ∀ s : Progress,
      diagnostics (doc.imports.foldl (Progress.follow reader project doc.path) s).notices =
        diagnostics s.notices from h { collection := c }
  induction doc.imports with
  | nil => exact fun s => rfl
  | cons specifier imports ih =>
    intro s
    rw [List.foldl_cons, ih, Progress.diagnostics_follow]

/-- The whole worklist adds no diagnostic to what was told before it. -/
theorem diagnostics_close (c : Collection) (told : Array Notice) (waiting : List Path) :
    diagnostics (close reader project c told waiting).2.toList = diagnostics told.toList := by
  -- Each visit adds what following the imports of one document tells.
  induction c, told, waiting using close.induct reader project with
  | case1 c told =>
    rw [close]
  | case2 c told key waiting hnone ih =>
    rw [close]
    simp only [hnone]
    exact ih
  | case3 c told key waiting doc hdoc s ih =>
    rw [close]
    simp only [hdoc]
    rw [ih, Array.toList_append, List.toList_toArray, Notice.diagnostics_append,
      diagnostics_followAll, List.append_nil]

theorem diagnostics_add (c : Collection) (path : Path) (code : String) (origin : Origin) :
    diagnostics (c.add reader project path code origin).notices = [] := by
  unfold add
  dsimp only
  split
  · rfl
  · exact diagnostics_close reader project _ #[] _

theorem diagnostics_compilationNotices (c : Collection) :
    diagnostics (c.compilationNotices project) = [] := by
  unfold compilationNotices
  rw [Notice.diagnostics_append]
  have hskipped := diagnostics_map_log (fun _ => .debug)
    (fun path : Path => "skipping " ++ path.text ++ " (build directory)")
    (c.graph.dependencyOrder.filter project.inBuildDir)
  split <;> exact hskipped

end Collection

/-! ## Loading and searching -/

theorem Project.diagnostics_packagesIn (d : Disk) (directory : Path) :
    ∀ package ∈ packagesIn d directory, diagnostics package.2 = [] := by
  intro package hpackage
  unfold packagesIn at hpackage
  split at hpackage
  · obtain ⟨name, -, rfl⟩ := List.mem_map.1 hpackage
    unfold packageAt
    dsimp only
    split <;> rfl
  · cases hpackage

theorem Project.diagnostics_load (d : Disk) (path : Path) (settings : Settings) :
    diagnostics (load d path settings).2 = [] := by
  unfold load
  dsimp only
  split
  · rfl
  · split
    · rfl
    · rw [Notice.diagnostics_append, Notice.debug, Notice.diagnostics_log,
        Notice.diagnostics_nil, List.append_nil]
      apply diagnostics_flatMap
      intro package hpackage
      cases hdirectory : Project.packagesPath? _ with
      | none =>
        rw [hdirectory] at hpackage
        cases hpackage
      | some directory =>
        rw [hdirectory] at hpackage
        exact diagnostics_packagesIn d directory package hpackage

namespace Build

/-- A search that tells log messages. -/
def logging (find : SearchRequest → Except SearchError (List Path) × List (Level × String)) :
    FileSearch :=
  fun request =>
    ((find request).1, (find request).2.map fun message => .log message.1 message.2)

theorem diagnostics_logging
    (find : SearchRequest → Except SearchError (List Path) × List (Level × String))
    (request : SearchRequest) : diagnostics (logging find request).2 = [] :=
  diagnostics_map_log Prod.fst Prod.snd _

/-- Every search without diagnostics is one. -/
theorem exists_eq_logging {search : FileSearch}
    (h : ∀ request, diagnostics (search request).2 = []) : ∃ find, search = logging find := by
  have hmessages : ∀ told : List Notice, diagnostics told = [] →
      ∃ messages : List (Level × String),
        told = messages.map fun message => .log message.1 message.2 := by
    intro told htold
    induction told with
    | nil => exact ⟨[], rfl⟩
    | cons notice told ih =>
      cases notice with
      | log level text =>
        obtain ⟨messages, hmessages⟩ := ih htold
        exact ⟨(level, text) :: messages, by rw [hmessages]; rfl⟩
      | diagnostic d => cases htold
  choose messages hmessages using fun request => hmessages (search request).2 (h request)
  refine ⟨fun request => ((search request).1, messages request), ?_⟩
  funext request
  unfold logging
  rw [← hmessages request]

theorem diagnostics_takeFiles (d : Disk) (request : SearchRequest) (excluded : List Glob)
    (files : Array Path) (found : List Path) :
    diagnostics (d.takeFiles request excluded files found).2 = [] := by
  fun_induction Disk.takeFiles d request excluded files found with
  | case1 files => rfl
  | case2 files p found hskip ih => exact ih
  | case3 files p found htake taken hfull => rfl
  | case4 files p found htake taken hroom ih => exact ih

/-- So the search of a disk is one. -/
theorem exists_search_eq_logging (d : Disk) : ∃ find, d.search = logging find := by
  apply exists_eq_logging
  intro request
  unfold Disk.search
  cases request.excluded.mapM Glob.ofText with
  | error e => rfl
  | ok excluded =>
    cases Glob.find d (Disk.searchPattern request) with
    | error e => rfl
    | ok found => exact diagnostics_takeFiles d request excluded #[] found

/-! ## Collecting -/

variable {reader : SourceReader} {project : Project}

theorem diagnostics_addBuffer (g : Gathering) (b : OpenBuffer) :
    diagnostics (addBuffer reader project g b).notices = diagnostics g.notices := by
  unfold addBuffer
  split
  · dsimp only
    split
    · simp [Gathering.add, Collection.diagnostics_add]
    · simp [Gathering.tell, Notice.debug]
  · rfl

theorem diagnostics_addBuffers (buffers : List OpenBuffer) :
    diagnostics (addBuffers reader project buffers).notices = [] := by
  -- The number of new buffers plays no part in what is told.
  suffices h : ∀ s : Gathering × Nat,
      diagnostics (buffers.foldl (fun s b => (addBuffer reader project s.1 b,
        if addsBuffer reader project s.1 b then s.2 + 1 else s.2)) s).1.notices =
      diagnostics s.1.notices by
    unfold addBuffers
    simpa [Gathering.tell, Notice.debug] using h ({}, 0)
  induction buffers with
  | nil => exact fun s => rfl
  | cons b buffers ih =>
    intro s
    rw [List.foldl_cons, ih, diagnostics_addBuffer]

theorem diagnostics_addFile (g : Gathering) (file : Path) :
    diagnostics (addFile reader project g file).notices = diagnostics g.notices := by
  unfold addFile
  dsimp only
  split
  · rfl
  · split
    · simp [Gathering.add, Collection.diagnostics_add]
    · simp [Gathering.tell, Notice.warn]

theorem diagnostics_addFiles (files : List Path) (g : Gathering) :
    diagnostics (files.foldl (addFile reader project) g).notices = diagnostics g.notices := by
  induction files generalizing g with
  | nil => rfl
  | cons file files ih => rw [List.foldl_cons, ih, diagnostics_addFile]

theorem diagnostics_gather {env : BuildEnv}
    (hsearch : ∀ request, diagnostics (env.search request).2 = [])
    (buffers : List OpenBuffer) : diagnostics (gather env project buffers).notices = [] := by
  have htold := hsearch (sourceSearch project)
  unfold gather
  dsimp only
  split
  · simp [htold, diagnostics_addBuffers]
  · simp [Notice.debug, Notice.info, htold, diagnostics_addBuffers, diagnostics_addFiles]

/-- **Logging**: collecting tells no diagnostic, whether it succeeds or fails. -/
theorem diagnostics_collect {env : BuildEnv}
    (hsearch : ∀ request, diagnostics (env.search request).2 = []) (workspace : Workspace)
    (settings : Settings) : diagnostics (collect env workspace settings).notices = [] := by
  unfold collect
  split
  · rfl
  · rename_i root _
    have hload := Project.diagnostics_load env.disk root settings
    split
    · rename_i hfault
      rwa [hfault] at hload
    · rename_i hloaded
      rw [hloaded] at hload
      simp [hload, diagnostics_gather hsearch]

end Build

end SolidityBuild
