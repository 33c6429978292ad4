import SolidityBuild.CommandLine.Run
import SolidityBuild.Proofs.Build.Gathering
import SolidityBuild.Proofs.Build.Reporting
import SolidityBuild.Proofs.CompilationSet.StandardJson

/-! # Agreement: listing the sources and printing the compiler's input

    Both commands load and collect in one way, but they count failures in two: the listing
    counts the failed imports of the collection, the other one the errors among all that it
    told. Collecting tells no diagnostic and printing the input tells none either, so what is
    left to count are the failed imports.
-/

namespace SolidityBuild.CommandLine

open Notice (diagnostics)

variable {d : Disk} {env : Environment} {machine : Machine} {given other : Given}
  {workspace : Workspace} {settings : Settings} {project : Project} {c : Collection}
  {args : List String}

/-! ## What a command works on -/

/-- Two commands are about one project: they are given the same root, buffers, optimizer runs
    and remappings. They may be told to print differently. -/
structure Given.SameProject (given other : Given) : Prop where
  root : given.root = other.root
  buffers : given.buffers = other.buffers
  optimizerRuns : given.optimizerRuns = other.optimizerRuns
  remappings : given.remappings = other.remappings

/-- Loading depends on nothing else. -/
theorem Given.SameProject.load_eq (h : given.SameProject other) (d : Disk) :
    load d given = load d other := by
  unfold load root? loadSettings override
  rw [h.root, h.buffers, h.optimizerRuns, h.remappings]

/-- What a command collects; none if loading or collecting fails. -/
def collected? (d : Disk) (given : Given) : Option (Project × Collection) :=
  match (load d given).result with
  | .error _ => none
  | .ok (workspace, settings) =>
    (Build.collect (buildEnv d) workspace settings).result.toOption

theorem Given.SameProject.collected?_eq (h : given.SameProject other) (d : Disk) :
    collected? d given = collected? d other := by
  unfold collected?
  rw [h.load_eq]

/-- How loading and collecting go for a command. -/
inductive Course (d : Disk) (given : Given) : Option (Project × Collection) → Prop where
  | unloaded (f : Failure) (hload : (load d given).result = .error f) : Course d given none
  | uncollected (workspace : Workspace) (settings : Settings) (e : BuildError)
      (hload : (load d given).result = .ok (workspace, settings))
      (hcollect : (Build.collect (buildEnv d) workspace settings).result = .error e) :
      Course d given none
  | collected (workspace : Workspace) (settings : Settings) (project : Project)
      (c : Collection) (hload : (load d given).result = .ok (workspace, settings))
      (hcollect : (Build.collect (buildEnv d) workspace settings).result = .ok (project, c)) :
      Course d given (some (project, c))

theorem course (d : Disk) (given : Given) : Course d given (collected? d given) := by
  unfold collected?
  cases hload : (load d given).result with
  | error f => exact .unloaded f hload
  | ok loaded =>
    obtain ⟨workspace, settings⟩ := loaded
    dsimp only
    cases hcollect : (Build.collect (buildEnv d) workspace settings).result with
    | error e => exact .uncollected workspace settings e hload hcollect
    | ok found => exact .collected workspace settings found.1 found.2 hload hcollect

/-- The exit code for what a command collects. -/
def codeOf : Option (Project × Collection) → Nat
  | none => 1
  | some (_, c) => exitCode c.importErrors.length

/-- It tells whether something failed. -/
theorem codeOf_ne_zero_iff {collected : Option (Project × Collection)} :
    codeOf collected ≠ 0 ↔ collected = none ∨
      ∃ project c, collected = some (project, c) ∧ ∃ doc ∈ c.documents, doc.errors ≠ [] := by
  cases collected with
  | none => simp [codeOf]
  | some found =>
    obtain ⟨project, c⟩ := found
    have herrors : c.importErrors = [] ↔ ∀ doc ∈ c.documents, doc.errors = [] := by
      simp [Collection.importErrors, List.flatMap_eq_nil_iff]
    have hcode : codeOf (some (project, c)) = 0 ↔ c.importErrors = [] := by
      simp [codeOf, exitCode, List.length_eq_zero_iff]
    rw [Ne, hcode, herrors]
    push Not
    simp

/-! ## Listing -/

/-- A text lists some names, each on a line and maybe with the mark of a buffer, and after
    them some failed imports. -/
def Lists (p : Printing) (text : String) (names : List String)
    (errors : List (Path × ImportError)) : Prop :=
  ∃ marked : List (String × Bool), marked.map Prod.fst = names ∧
    text = String.join (marked.map (fun (name, fromBuffer) =>
        name ++ (if fromBuffer then styled p.colors .cyan false " (buffer)" else "") ++ "\n") ++
      errors.map fun (path, e) => importErrorLine p path e)

theorem sources_of_error {e : BuildError} (p : Printing) (told : List Notice)
    (h : (Build.collect (buildEnv machine.disk) workspace settings).result = .error e) :
    let listing := sources p machine workspace settings told
    listing.code = 1 ∧ listing.stdout = "" := by
  unfold sources
  simp only [h]
  exact ⟨rfl, rfl⟩

theorem sources_of_ok (p : Printing) (told : List Notice)
    (h : (Build.collect (buildEnv machine.disk) workspace settings).result =
      .ok (project, c)) :
    let listing := sources p machine workspace settings told
    listing.code = exitCode c.importErrors.length ∧
      Lists p listing.stdout
        ((c.compilationSet project settings.optimizerRuns).units.map CompilationUnit.name)
        c.importErrors := by
  unfold sources
  simp only [h]
  refine ⟨trivial, ?_⟩
  let fromBuffer (unit : CompilationUnit) : Bool :=
    (c.get? (machine.disk.reader.key unit.path)).any fun doc => doc.origin = .buffer
  refine ⟨(c.compilationSet project settings.optimizerRuns).units.map fun unit =>
    (unit.name, fromBuffer unit), ?_, ?_⟩
  · rw [List.map_map]
    rfl
  · rw [List.map_map]
    rfl

/-! ## Printing the input -/

/-- The printer of the input in the command: it writes to standard output. -/
def printer : Compiler String :=
  Compiler.emitInput fun text printed => (.ok (), printed ++ text)

theorem emitInput_of_error {e : BuildError} (p : Printing) (told : List Notice)
    (h : (Build.collect (buildEnv machine.disk) workspace settings).result = .error e) :
    let emitted := emitInput p machine workspace settings told
    emitted.code = 1 ∧ emitted.stdout = "" := by
  unfold emitInput
  simp only [Build.compileAll_of_error h]
  exact ⟨rfl, rfl⟩

/-- The errors that printing the input tells are the failed imports. -/
theorem countOf_error_printed
    (h : (Build.collect (buildEnv d) workspace settings).result = .ok (project, c)) :
    countOf .error (Build.compileAll (buildEnv d) printer workspace settings "").notices =
      c.importErrors.length := by
  -- The search on a disk only logs.
  obtain ⟨find, hfind⟩ := Build.exists_search_eq_logging d
  have hsilent : ∀ request, diagnostics ((buildEnv d).search request).2 = [] := by
    intro request
    show diagnostics (d.search request).2 = []
    rw [hfind]
    exact Build.diagnostics_logging find request
  have htold : diagnostics (Build.compileAll (buildEnv d) printer workspace settings "").notices =
      Build.importDiagnostics c := by
    rw [Build.compileAll_of_ok h, Notice.diagnostics_append,
      Build.diagnostics_collect hsilent, Build.diagnostics_compile]
    exact List.append_nil _
  unfold countOf
  rw [htold]
  unfold Build.importDiagnostics
  rw [List.countP_map, List.countP_eq_length.2]
  intro failure _
  rfl

theorem emitInput_of_ok (p : Printing) (told : List Notice)
    (h : (Build.collect (buildEnv machine.disk) workspace settings).result =
      .ok (project, c)) :
    let emitted := emitInput p machine workspace settings told
    emitted.code = exitCode c.importErrors.length ∧
      CompilationSet.ListsSources emitted.stdout
        (CompilationSet.sourceMembers
          (c.compilationSet project settings.optimizerRuns).units) := by
  let set := c.compilationSet project settings.optimizerRuns
  let run := Build.compileAll (buildEnv machine.disk) printer workspace settings ""
  have hrun : run = _ := Build.compileAll_of_ok h printer ""
  have hresult : run.result = _ :=
    (congrArg Build.Finished.result hrun).trans
      (Build.compile_result printer project c settings.optimizerRuns "")
  obtain ⟨summary, hok⟩ : ∃ summary, run.result = .ok summary := ⟨_, hresult⟩
  have hprinted : run.state = set.standardJson ++ "\n" := by
    rw [hrun]
    exact String.empty_append
  have hemitted : emitInput p machine workspace settings told =
      { code := exitCode (countOf .error run.notices), stdout := run.state,
        stderr := p.notices (told ++ run.notices), machine } := by
    unfold emitInput
    dsimp only
    split
    · rename_i e herror
      cases hok.symm.trans herror
    · rfl
  intro emitted
  rw [show emitted = _ from hemitted, countOf_error_printed h, hprinted]
  exact ⟨rfl, set.listsSources_printed⟩

/-! ## Running -/

theorem run_sources (h : Request.ofArgs? args = some (.sources given)) (env : Environment)
    (d : Disk) : run args env d = runWith env given { disk := d }
      fun p workspace settings told => sources p { disk := d } workspace settings told := by
  unfold run
  rw [h]

theorem run_emitInput (h : Request.ofArgs? args = some (.compile given))
    (hemit : given.emitInput = true) (env : Environment) (d : Disk) :
    run args env d = runWith env given { disk := d }
      fun p workspace settings told => emitInput p { disk := d } workspace settings told := by
  unfold run
  rw [h]
  simp only [hemit, if_true]

section

variable {command : Printing → Workspace → Settings → List Notice → Exit}
  (Prints : Printing → List CompilationUnit → Collection → String → Prop)

/-- If a command fails where collecting fails, and otherwise counts the failed imports and
    prints something about the units, then so it does when it is run. -/
theorem runWith_outcome
    (hfails : ∀ p workspace settings told e,
      (Build.collect (buildEnv d) workspace settings).result = .error e →
      let exit := command p workspace settings told
      exit.code = 1 ∧ exit.stdout = "")
    (hworks : ∀ p workspace settings told project c,
      (Build.collect (buildEnv d) workspace settings).result = .ok (project, c) →
      let exit := command p workspace settings told
      exit.code = exitCode c.importErrors.length ∧
        Prints p (c.compilationSet project settings.optimizerRuns).units c exit.stdout) :
    let exit := runWith env given { disk := d } command
    exit.code = codeOf (collected? d given) ∧
    (collected? d given = none → exit.stdout = "") ∧
    ∀ project c, collected? d given = some (project, c) → ∀ runs,
      Prints (.ofGiven env given) (c.compilationSet project runs).units c exit.stdout := by
  have hcourse := course d given
  generalize collected? d given = found at hcourse ⊢
  unfold runWith
  cases hcourse with
  | unloaded f hload =>
    simp only [hload]
    exact ⟨rfl, fun _ => rfl, nofun⟩
  | uncollected workspace settings e hload hcollect =>
    simp only [hload]
    obtain ⟨hcode, hprinted⟩ := hfails _ workspace settings _ e hcollect
    exact ⟨hcode, fun _ => hprinted, nofun⟩
  | collected workspace settings project c hload hcollect =>
    simp only [hload]
    obtain ⟨hcode, hprints⟩ := hworks _ workspace settings _ project c hcollect
    refine ⟨hcode, nofun, ?_⟩
    -- The number of runs is no part of the units.
    intro project' c' hsome runs
    cases hsome
    exact hprints

end

theorem run_sources_outcome (h : Request.ofArgs? args = some (.sources given))
    (env : Environment) (d : Disk) :
    let listing := run args env d
    listing.code = codeOf (collected? d given) ∧
    (collected? d given = none → listing.stdout = "") ∧
    ∀ project c, collected? d given = some (project, c) → ∀ runs,
      Lists (.ofGiven env given) listing.stdout
        ((c.compilationSet project runs).units.map CompilationUnit.name) c.importErrors := by
  rw [run_sources h]
  apply runWith_outcome fun p units c text =>
    Lists p text (units.map CompilationUnit.name) c.importErrors
  · intro p workspace settings told e hcollect
    exact sources_of_error p told hcollect
  · intro p workspace settings told project c hcollect
    exact sources_of_ok p told hcollect

theorem run_emitInput_outcome (h : Request.ofArgs? args = some (.compile given))
    (hemit : given.emitInput = true) (env : Environment) (d : Disk) :
    let emitted := run args env d
    emitted.code = codeOf (collected? d given) ∧
    (collected? d given = none → emitted.stdout = "") ∧
    ∀ project c, collected? d given = some (project, c) → ∀ runs,
      CompilationSet.ListsSources emitted.stdout
        (CompilationSet.sourceMembers (c.compilationSet project runs).units) := by
  rw [run_emitInput h hemit]
  apply runWith_outcome fun _ units _ text =>
    CompilationSet.ListsSources text (CompilationSet.sourceMembers units)
  · intro p workspace settings told e hcollect
    exact emitInput_of_error p told hcollect
  · intro p workspace settings told project c hcollect
    exact emitInput_of_ok p told hcollect

/-- **Agreement**: the command that lists the sources of a project and the one that prints the
    compiler's input end with one exit code, which is not zero exactly if loading or collecting
    fails or an import does. If loading or collecting fails, neither prints anything to
    standard output. Otherwise the listed names are the names of the members that the printed
    input has as its sources, in one order. -/
theorem sources_agree_with_input {args args' : List String} (env env' : Environment)
    (disk : Disk) {given given' : Given}
    (hsources : Request.ofArgs? args = some (.sources given))
    (hcompile : Request.ofArgs? args' = some (.compile given'))
    (hemit : given'.emitInput = true) (hsame : given.SameProject given') :
    let listing := run args env disk
    let emitted := run args' env' disk
    listing.code = emitted.code ∧
    (listing.code ≠ 0 ↔ collected? disk given = none ∨
      ∃ project c, collected? disk given = some (project, c) ∧
        ∃ doc ∈ c.documents, doc.errors ≠ []) ∧
    (collected? disk given = none → listing.stdout = "" ∧ emitted.stdout = "") ∧
    ∀ project c runs, collected? disk given = some (project, c) →
      let names := (c.compilationSet project runs).units.map CompilationUnit.name
      Lists (.ofGiven env given) listing.stdout names c.importErrors ∧
      ∃ sources, CompilationSet.ListsSources emitted.stdout sources ∧
        sources.map Prod.fst = names.map Json.Literal.text := by
  intro listing emitted
  obtain ⟨hcode, hfailed, hlists⟩ := run_sources_outcome hsources env disk
  obtain ⟨hcode', hfailed', hprints⟩ := run_emitInput_outcome hcompile hemit env' disk
  rw [← hsame.collected?_eq] at hcode' hfailed' hprints
  refine ⟨hcode.trans hcode'.symm, ?_, ?_, ?_⟩
  · rw [show listing.code = _ from hcode]
    exact codeOf_ne_zero_iff
  · intro hnone
    exact ⟨hfailed hnone, hfailed' hnone⟩
  · intro project c runs hsome names
    refine ⟨hlists project c hsome runs, _, hprints project c hsome runs, ?_⟩
    -- A unit's member is named as the unit is.
    show ((c.compilationSet project runs).units.map _).map Prod.fst = List.map _ (List.map _ _)
    rw [List.map_map, List.map_map]
    rfl

/-! ## A project whose only source imports a missing one -/

/-- The disk with the project. -/
def draftDisk : Disk where
  tree := .dir [("proj", .dir [("A.sol", .file "import \"./B.sol\";".toUTF8 none)])]
  cwd := []

/-- The flag for its root. -/
def draftGiven : Given where
  root := some ⟨"/proj"⟩

/-- The project, for which everything is as it is by default. -/
def draftProject : Project where
  root := ⟨"/proj"⟩
  packagesDir := some "lib"
  contractsDir := some "src"

/-- The offer of the source. -/
def draftOffer : Collection.Offer where
  path := ⟨"/proj/A.sol"⟩
  code := "import \"./B.sol\";"
  origin := .disk

theorem collected?_draft : collected? draftDisk draftGiven =
    some (draftProject, Collection.addAll draftDisk.reader draftProject {} [draftOffer]) := by
  have hload : (load draftDisk draftGiven).result = .ok ({ root := some ⟨"/proj"⟩ }, {}) := by
    decide +kernel
  have hproject : (Project.load draftDisk ⟨"/proj"⟩ {}).1 = .ok draftProject := by
    decide +kernel
  have hfound : (draftDisk.search (Build.sourceSearch draftProject)).1 =
      .ok [⟨"/proj/A.sol"⟩] := by
    decide +kernel
  have hkey : draftDisk.reader.key ⟨"/proj/A.sol"⟩ = ⟨"/proj/A.sol"⟩ := by
    decide +kernel
  have hread : draftDisk.reader.read ⟨"/proj/A.sol"⟩ = .ok "import \"./B.sol\";" := by
    decide +kernel
  have hoffers : Build.fileOffers draftDisk.reader draftProject [⟨"/proj/A.sol"⟩] =
      [draftOffer] := by
    have hoffer : Build.fileOffer? draftDisk.reader draftProject ⟨"/proj/A.sol"⟩ = _ :=
      Build.fileOffer?_of_read rfl (by rw [hkey]; exact hread)
    rw [hkey] at hoffer
    exact List.filterMap_cons_some hoffer
  have hcollect : (Build.collect (buildEnv draftDisk) { root := some ⟨"/proj"⟩ } {}).result =
      .ok (draftProject, Collection.addAll draftDisk.reader draftProject {}
        (Build.bufferOffers draftDisk.reader draftProject [] ++
          Build.fileOffers draftDisk.reader draftProject [⟨"/proj/A.sol"⟩])) :=
    Build.collect_of_found rfl hproject hfound
  unfold collected?
  simp only [hload, hcollect, hoffers]
  rfl

/-- The missing import is recorded. -/
theorem exists_error_draft :
    ∃ doc ∈ (Collection.addAll draftDisk.reader draftProject {} [draftOffer]).documents,
      doc.errors ≠ [] := by
  obtain ⟨doc, hget, hbare⟩ : ∃ doc,
      (Collection.addAll draftDisk.reader draftProject {} [draftOffer]).get?
        (draftDisk.reader.key draftOffer.path) = some doc ∧
      doc.bare = draftOffer.document draftDisk.reader :=
    Collection.get?_of_first [] [] draftOffer rfl
  have hdoc := List.mem_of_find?_eq_some hget
  refine ⟨doc, hdoc, ?_⟩
  have houtcomes : ∀ present, doc.outcomes draftDisk.reader draftProject present =
      (draftOffer.document draftDisk.reader).outcomes draftDisk.reader draftProject present := by
    intro present
    rw [← hbare]
    rfl
  rw [(Collection.accounted_of_single hdoc).errors, houtcomes]
  decide +kernel

/-- Listing and printing end with one code that tells of the missing import, and the listed
    names are those in the printed input. -/
theorem draft_listed_and_printed :
    let listing := run ["sources", "--root=/proj"] {} draftDisk
    let printed := run ["compile", "--root=/proj", "--emit-input"] {} draftDisk
    listing.code = printed.code ∧ listing.code ≠ 0 ∧ ∃ names errors sources,
      Lists (.ofGiven {} draftGiven) listing.stdout names errors ∧
      CompilationSet.ListsSources printed.stdout sources ∧
      sources.map Prod.fst = names.map Json.Literal.text := by
  intro listing printed
  have hsources : Request.ofArgs? ["sources", "--root=/proj"] = some (.sources draftGiven) :=
    rfl
  have hcompile : Request.ofArgs? ["compile", "--root=/proj", "--emit-input"] =
      some (.compile { draftGiven with emitInput := true }) :=
    rfl
  obtain ⟨hcode, hfails, -, hnames⟩ := sources_agree_with_input {} {} draftDisk hsources hcompile
    rfl ⟨rfl, rfl, rfl, rfl⟩
  obtain ⟨hlists, sources, hprints, hsame⟩ := hnames _ _ 0 collected?_draft
  refine ⟨hcode, ?_, _, _, sources, hlists, hprints, hsame⟩
  exact hfails.2 (.inr ⟨_, _, collected?_draft, exists_error_draft⟩)

end SolidityBuild.CommandLine
