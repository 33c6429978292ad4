import SolidityBuild.Proofs.Build.Logging
import SolidityBuild.Proofs.Collection.Graph
import Mathlib.Data.List.Perm.Subperm

/-! # Reporting: what a build hands to its compiler, tells and counts

    A build whose collecting fails stops there. Any other build tells the failed imports, calls
    its compiler once with the units of the collection, and counts what it told. To speak of
    calls a compiler is run with a record of what it is given, which changes nothing else.
-/

namespace SolidityBuild

open Notice (diagnostics)

/-! ## Calls -/

namespace Compiler

/-- The compiler with a record of what it was called with, the last call at the end. -/
def recording (compiler : Compiler σ) :
    Compiler (σ × List (CompilationSet × CompileTarget)) :=
  fun set target (state, calls) =>
    let run := compiler set target state
    { outcome := run.outcome, notices := run.notices
      state := (run.state, calls ++ [(set, target)]) }

end Compiler

namespace Collection

/-! ## Counts -/

/-- There are no more units than documents, whatever the keys are. -/
theorem length_units_le (c : Collection) (project : Project) (runs : Nat) :
    (c.compilationSet project runs).units.length ≤ c.documents.length := by
  let docs := (c.graph.dependencyOrder.filter fun path => !project.inBuildDir path).filterMap
    c.get?
  -- Looking a path up gives a document with that path, so no document comes twice.
  have hnodup : docs.Nodup := by
    apply List.Nodup.filterMap _ (c.nodup_dependencyOrder.filter _)
    intro p q doc hp hq
    have hpath : doc.path = p := by simpa using List.find?_some hp
    have hpath' : doc.path = q := by simpa using List.find?_some hq
    rw [← hpath, hpath']
  have hsub : docs ⊆ c.documents := by
    intro doc hdoc
    obtain ⟨p, -, hget⟩ := List.mem_filterMap.1 hdoc
    exact List.mem_of_find?_eq_some hget
  have hlength : (c.compilationSet project runs).units.length = docs.length :=
    List.length_map _
  rw [hlength]
  exact (List.subperm_of_subset hnodup hsub).length_le

end Collection

namespace Build

variable {env : BuildEnv} {workspace : Workspace} {settings : Settings} {project : Project}
  {c : Collection}

/-! ## One build -/

theorem compileAll_of_error {e : BuildError}
    (h : (collect env workspace settings).result = .error e) (compiler : Compiler σ)
    (state : σ) :
    compileAll env compiler workspace settings state =
      { result := .error e, notices := (collect env workspace settings).notices, state } := by
  unfold compileAll
  simp only [h]

theorem compileAll_of_ok (h : (collect env workspace settings).result = .ok (project, c))
    (compiler : Compiler σ) (state : σ) :
    compileAll env compiler workspace settings state =
      { compile compiler project c settings.optimizerRuns state with
        notices := (collect env workspace settings).notices ++
          (compile compiler project c settings.optimizerRuns state).notices } := by
  unfold compileAll
  simp only [h]

/-- Recording the calls leaves a build as it is. -/
theorem compileAll_recording (env : BuildEnv) (compiler : Compiler σ) (workspace : Workspace)
    (settings : Settings) (state : σ) (calls : List (CompilationSet × CompileTarget)) :
    let recorded := compileAll env compiler.recording workspace settings (state, calls)
    let finished := compileAll env compiler workspace settings state
    recorded.result = finished.result ∧ recorded.notices = finished.notices ∧
      recorded.state.1 = finished.state := by
  intro recorded finished
  cases h : (collect env workspace settings).result with
  | error e =>
    have hrecorded : recorded = _ := compileAll_of_error h compiler.recording (state, calls)
    have hfinished : finished = _ := compileAll_of_error h compiler state
    rw [hrecorded, hfinished]
    exact ⟨rfl, rfl, rfl⟩
  | ok collected =>
    have hrecorded : recorded = _ := compileAll_of_ok h compiler.recording (state, calls)
    have hfinished : finished = _ := compileAll_of_ok h compiler state
    rw [hrecorded, hfinished]
    exact ⟨rfl, rfl, rfl⟩

/-- Each failed import has one diagnostic, in the order of the documents and of their
    imports. -/
theorem importDiagnostics_eq (c : Collection) :
    importDiagnostics c = c.documents.flatMap fun doc =>
      doc.errors.map (importDiagnostic doc.path) := by
  unfold importDiagnostics Collection.importErrors
  rw [List.map_flatMap]
  simp only [List.map_map]
  rfl

theorem length_importDiagnostics (c : Collection) :
    (importDiagnostics c).length = (c.documents.flatMap Document.errors).length := by
  rw [importDiagnostics_eq, List.length_flatMap, List.length_flatMap]
  simp only [List.length_map]

/-- Compiling tells the failed imports before what the compiler tells. -/
theorem diagnostics_compile (compiler : Compiler σ) (project : Project) (c : Collection)
    (runs : Nat) (state : σ) :
    diagnostics (compile compiler project c runs state).notices =
      importDiagnostics c ++ diagnostics
        (compiler (c.compilationSet project runs) project.compileTarget state).notices := by
  unfold compile
  simp [Notice.info, Collection.diagnostics_compilationNotices]

/-- Compiling counts what it tells. -/
theorem compile_result (compiler : Compiler σ) (project : Project) (c : Collection)
    (runs : Nat) (state : σ) :
    (compile compiler project c runs state).result =
      match (compiler (c.compilationSet project runs) project.compileTarget state).outcome with
      | .error e => .error (.compiler e)
      | .ok () => .ok {
          documents := c.documents.length
          compiled := (c.compilationSet project runs).units.length
          importErrors := (importDiagnostics c).length
          diagnostics :=
            (diagnostics (compile compiler project c runs state).notices).length } := by
  rw [diagnostics_compile, List.length_append]
  rfl

/-! ## The report -/

/-- **Reporting**: if collecting fails, a build gives that failure, does not call its compiler
    and tells no diagnostic. Otherwise it calls the compiler once, with the units of the
    collection; its diagnostics are one for each failed import, in the order of the documents
    and of the imports in them, and then those of the compiler. It fails as the compiler does,
    or it counts the documents, the units, of which there are no more, the failed imports and
    all the diagnostics. -/
theorem compileAll_reports (disk : Disk) (reader : SourceReader)
    (find : SearchRequest → Except SearchError (List Path) × List (Level × String))
    (compiler : Compiler σ) (workspace : Workspace) (settings : Settings) (state : σ) :
    let env : BuildEnv := { disk, reader, search := logging find }
    let collected := (collect env workspace settings).result
    let finished := compileAll env compiler workspace settings state
    let recorded := compileAll env compiler.recording workspace settings (state, [])
    (recorded.result = finished.result ∧ recorded.notices = finished.notices ∧
      recorded.state.1 = finished.state) ∧
    (∀ e, collected = .error e →
      finished.result = .error e ∧ finished.state = state ∧ recorded.state.2 = [] ∧
      diagnostics finished.notices = []) ∧
    (∀ project c, collected = .ok (project, c) →
      let set := c.compilationSet project settings.optimizerRuns
      let run := compiler set project.compileTarget state
      recorded.state.2 = [(set, project.compileTarget)] ∧ finished.state = run.state ∧
      diagnostics finished.notices =
        (c.documents.flatMap fun doc => doc.errors.map fun e =>
          { severity := .error, message := e.message, path := some doc.path,
            code := some "import" }) ++ diagnostics run.notices ∧
      (∀ e, run.outcome = .error e → finished.result = .error (.compiler e)) ∧
      (run.outcome = .ok () → finished.result = .ok {
        documents := c.documents.length
        compiled := set.units.length
        importErrors := (c.documents.flatMap Document.errors).length
        diagnostics := (diagnostics finished.notices).length }) ∧
      set.units.length ≤ c.documents.length) := by
  intro env collected finished recorded
  have hsilent : diagnostics (collect env workspace settings).notices = [] :=
    diagnostics_collect (diagnostics_logging find) workspace settings
  refine ⟨compileAll_recording env compiler workspace settings state [], ?_, ?_⟩
  · intro e h
    have hrecorded : recorded = _ := compileAll_of_error h compiler.recording (state, [])
    have hfinished : finished = _ := compileAll_of_error h compiler state
    rw [hrecorded, hfinished]
    exact ⟨rfl, rfl, rfl, hsilent⟩
  · intro project c h set run
    have hrecorded : recorded = _ := compileAll_of_ok h compiler.recording (state, [])
    have hfinished : finished = _ := compileAll_of_ok h compiler state
    -- Nothing is added to what compiling tells, so it may be counted there.
    have htold : diagnostics finished.notices =
        diagnostics (compile compiler project c settings.optimizerRuns state).notices := by
      rw [hfinished, Notice.diagnostics_append, hsilent, List.nil_append]
    have hresult : finished.result = _ :=
      (congrArg Finished.result hfinished).trans
        (compile_result compiler project c settings.optimizerRuns state)
    rw [← htold, length_importDiagnostics] at hresult
    refine ⟨?_, ?_, ?_, ?_, ?_, c.length_units_le project settings.optimizerRuns⟩
    · rw [hrecorded]
      rfl
    · rw [hfinished]
      rfl
    · rw [htold, diagnostics_compile, importDiagnostics_eq]
      rfl
    · intro e he
      rw [hresult, he]
    · intro hok
      rw [hresult, hok]

end Build

end SolidityBuild
