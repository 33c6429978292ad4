import SolidityBuild.Compiler.Basic
import SolidityBuild.Glob.Search
import SolidityBuild.Project.Load
import SolidityBuild.Workspace

/-! # Builds: collecting the sources of a workspace and compiling them

    A build loads the project at the workspace's root, collects the open buffers below the
    root and then the files that a search of the source directory finds, each with all that
    it imports. Failed imports become diagnostics, and the sources outside the build
    directory go to the compiler.
-/

namespace SolidityBuild

/-- Why a build ends early. -/
inductive BuildError where
  /-- the workspace has no root -/
  | noRoot
  | project (f : Project.Fault)
  | search (e : SearchError)
  | compiler (e : CompilerError)
deriving DecidableEq

/-- The message for a build that ends early. -/
def BuildError.message : BuildError → String
  | noRoot => "No workspace root; nothing to compile"
  | project f => f.message
  | search e => "Source search failed: " ++ e.message
  | compiler e => e.message

/-- What a build works with. -/
structure BuildEnv where
  /-- the disk that the project is loaded from -/
  disk : Disk
  reader : SourceReader
  search : FileSearch

namespace Build

/-- The extension of source files. -/
def sourceExtension : String := "sol"

/-- The number of files that a search stops at. -/
def searchLimit : Nat := 1000

/-- A collection in the making, and what was told. -/
structure Gathering where
  collection : Collection := {}
  notices : List Notice := []

namespace Gathering

/-- One more thing told. -/
def tell (g : Gathering) (notice : Notice) : Gathering :=
  { g with notices := g.notices ++ [notice] }

/-- The gathering with a document and all that it imports. -/
def add (g : Gathering) (reader : SourceReader) (project : Project) (path : Path)
    (code : String) (origin : Origin) : Gathering :=
  let r := g.collection.add reader project path code origin
  { collection := r.collection, notices := g.notices ++ r.notices }

end Gathering

/-! ## Open buffers -/

/-- Adds a buffer with source text below the root; any other is left out. -/
def addBuffer (reader : SourceReader) (project : Project) (g : Gathering)
    (b : OpenBuffer) : Gathering :=
  if b.path.extension? = some sourceExtension then
    let path := reader.key b.path
    if project.root.contains path then g.add reader project path b.text .buffer
    else g.tell (.debug ("buffer " ++ path.text ++ " is outside the project"))
  else g

/-- Whether a buffer is one that `addBuffer` adds to a collection. -/
def addsBuffer (reader : SourceReader) (project : Project) (g : Gathering)
    (b : OpenBuffer) : Bool :=
  b.path.extension? = some sourceExtension && project.root.contains (reader.key b.path) &&
    !g.collection.has (reader.key (reader.key b.path))

/-- Adds the buffers in their order; answers the number of new ones too. -/
def addBuffers (reader : SourceReader) (project : Project) (buffers : List OpenBuffer) :
    Gathering :=
  let (g, added) := buffers.foldl (fun (g, added) b =>
    (addBuffer reader project g b, if addsBuffer reader project g b then added + 1 else added))
    (({} : Gathering), 0)
  g.tell (.debug ("added " ++ toString added ++ " open buffers"))

/-! ## Found files -/

/-- The search for the sources of a project. -/
def sourceSearch (project : Project) : SearchRequest where
  base := project.sourcesPath
  wanted := "**/*." ++ sourceExtension
  excluded := [project.buildExclude]
  limit := searchLimit

/-- Adds a found file, unless it is in the build directory, collected already or cannot be
    read. -/
def addFile (reader : SourceReader) (project : Project) (g : Gathering) (file : Path) :
    Gathering :=
  let path := reader.key file
  if project.inBuildDir path || g.collection.has (reader.key path) then g
  else match reader.read path with
    | .ok code => g.add reader project path code .disk
    | .error e => g.tell (.warn ("cannot read " ++ path.text ++ ": " ++ e.message))

/-! ## Collecting -/

/-- What collecting the sources came to, and what was told. -/
structure Collected where
  result : Except BuildError (Project × Collection)
  notices : List Notice

/-- Collects the buffers and the found files of a loaded project. -/
def gather (env : BuildEnv) (project : Project) (buffers : List OpenBuffer) : Collected :=
  let request := sourceSearch project
  let g := addBuffers env.reader project buffers
  let (found, told) := env.search request
  match found with
  | .error e => { result := .error (.search e), notices := g.notices ++ told }
  | .ok files =>
    let searched := Notice.debug ("search under " ++ request.base.text ++ " found " ++
      toString files.length ++ " files")
    let g := files.foldl (addFile env.reader project)
      { g with notices := g.notices ++ told ++ [searched] }
    let collected := Notice.info ("collected " ++ toString g.collection.documents.length ++
      " documents under " ++ project.root.text)
    { result := .ok (project, g.collection), notices := g.notices ++ [collected] }

/-- Loads the project at the root and collects its sources. -/
def collect (env : BuildEnv) (workspace : Workspace) (settings : Settings) : Collected :=
  match workspace.root with
  | none =>
    { result := .error .noRoot, notices := [.warn "no workspace root, skipping compile"] }
  | some root =>
    match Project.load env.disk root settings with
    | (.error f, told) => { result := .error (.project f), notices := told }
    | (.ok project, told) =>
      let c := gather env project workspace.buffers
      { c with notices := told ++ c.notices }

/-! ## Compiling -/

/-- The counts of a build. -/
structure Summary where
  /-- the collected documents -/
  documents : Nat
  /-- the documents that the compiler got -/
  compiled : Nat
  importErrors : Nat
  /-- all diagnostics, those for failed imports included -/
  diagnostics : Nat
deriving DecidableEq, Inhabited

/-- What a build came to. -/
structure Finished (σ : Type) where
  result : Except BuildError Summary
  notices : List Notice
  state : σ

/-- The diagnostic for a failed import. -/
def importDiagnostic (path : Path) (e : ImportError) : Diagnostic :=
  { severity := .error, message := e.message, path := some path, code := some "import" }

/-- The diagnostics for the failed imports of a collection. -/
def importDiagnostics (c : Collection) : List Diagnostic :=
  c.importErrors.map fun (path, e) => importDiagnostic path e

/-- Compiles a collection. -/
def compile (compiler : Compiler σ) (project : Project) (c : Collection) (runs : Nat)
    (state : σ) : Finished σ :=
  let set := c.compilationSet project runs
  let failed := importDiagnostics c
  let optimizer := if set.optimizerEnabled then "on" else "off"
  let told := failed.map Notice.diagnostic ++ c.compilationNotices project ++
    [.info ("compiling " ++ toString set.units.length ++ " sources (optimizer " ++
      optimizer ++ ")")]
  let run := compiler set project.compileTarget state
  { result := match run.outcome with
      | .error e => .error (.compiler e)
      | .ok () => .ok {
          documents := c.documents.length
          compiled := set.units.length
          importErrors := failed.length
          diagnostics := failed.length + (Notice.diagnostics run.notices).length }
    notices := told ++ run.notices
    state := run.state }

/-- Collects the sources of a workspace and compiles them. -/
def compileAll (env : BuildEnv) (compiler : Compiler σ) (workspace : Workspace)
    (settings : Settings) (state : σ) : Finished σ :=
  let collected := collect env workspace settings
  match collected.result with
  | .error e => { result := .error e, notices := collected.notices, state }
  | .ok (project, c) =>
    let finished := compile compiler project c settings.optimizerRuns state
    { finished with notices := collected.notices ++ finished.notices }

end Build

end SolidityBuild
