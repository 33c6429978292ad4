import SolidityBuild.CommandLine.Failure
import SolidityBuild.CommandLine.Options
import SolidityBuild.CommandLine.Style
import SolidityBuild.Compiler.Process

/-! # Running a command line

    A command loads the settings and the buffers, collects the sources of the project and
    lists them or compiles them. Running is a function of the arguments, the environment and
    the disk; it answers the exit code, what was printed, and the disk afterwards.
-/

namespace SolidityBuild

namespace CommandLine

/-- What running a command line came to. -/
structure Exit where
  code : Nat
  stdout : String := ""
  stderr : String := ""
  machine : Machine

/-! ## Loading -/

/-- What a command works on, and what was told while it was loaded. -/
structure Loaded where
  result : Except Failure (Workspace × Settings)
  notices : List Notice := []

/-- The root of the project: the given one, else the nearest directory that looks like
    one. -/
def root? (d : Disk) (given : Given) : Option Path :=
  given.root <|> d.projectRoot? (Path.ofNames d.cwd)

/-- The settings with those replaced that flags give. -/
def override (given : Given) (s : Settings) : Settings :=
  { s with
    optimizerRuns := given.optimizerRuns.getD s.optimizerRuns
    remappings := given.remappings ++ s.remappings }

/-- The settings at a root, overridden by flags; without a root the defaults. -/
def loadSettings (d : Disk) (given : Given) (root : Option Path) : Except Failure Settings :=
  match root with
  | none => .ok (override given {})
  | some root =>
    match Settings.load d root with
    | .ok s => .ok (override given s)
    | .error f => .error { message := "invalid settings in " ++ root.text, causes := f.chain }

/-- What is said of a text that is no list of buffers. -/
def malformedBuffersText : String := "the text is not a JSON list of buffers"

/-- The buffers in a file. -/
def loadBuffers (d : Disk) (p : Path) (root : Option Path) : Except Failure (List OpenBuffer) :=
  match d.readText p with
  | .error e =>
    .error { message := "failed to read buffers from " ++ p.text, causes := [e.message] }
  | .ok text =>
    match OpenBuffer.listOfText? text root with
    | some buffers => .ok buffers
    | none => .error { message := "invalid buffer list", causes := [malformedBuffersText] }

/-- Loads what a command works on. -/
def load (d : Disk) (given : Given) : Loaded :=
  let root := root? d given
  let told := match root with
    | some root => Settings.loadNotices d root
    | none => []
  match loadSettings d given root with
  | .error f => { result := .error f, notices := told }
  | .ok settings =>
    match given.buffers with
    | none => { result := .ok ({ root }, settings), notices := told }
    | some p =>
      match loadBuffers d p root with
      | .error f => { result := .error f, notices := told }
      | .ok buffers =>
        { result := .ok ({ root, buffers }, settings)
          notices := told ++ [.debug ("loaded " ++ toString buffers.length ++
            " buffers from " ++ p.text)] }

/-! ## Printing -/

/-- How a command prints. -/
structure Printing where
  colors : Bool
  shown : Level

/-- How the flags and the environment want a command to print. -/
def Printing.ofGiven (env : Environment) (given : Given) : Printing where
  colors := (ColorChoice.ofFlag env given.color).isOn env
  shown := .shown given.verbose given.quiet

/-- Some notices as they are shown. -/
def Printing.notices (p : Printing) (notices : List Notice) : String :=
  String.join (notices.map (render p.colors p.shown))

/-- The number of diagnostics of a severity. -/
def countOf (severity : Severity) (notices : List Notice) : Nat :=
  (Notice.diagnostics notices).countP fun d => d.severity = severity

/-- The last line of a compile command. -/
def summaryLine (p : Printing) (s : Build.Summary) (errors warnings : Nat) : String :=
  (if errors = 0 then styled p.colors .green true "Compiled"
    else styled p.colors .red true "Failed") ++
  " " ++ toString s.compiled ++ " of " ++ toString s.documents ++ " sources" ++
  (if errors = 0 && warnings = 0 then ""
    else styled p.colors .white false
      (" (" ++ toString errors ++ " errors, " ++ toString warnings ++ " warnings)")) ++ "\n"

/-- The line of a source; one that comes from a buffer is marked. -/
def sourceLine (p : Printing) (unit : CompilationUnit) (fromBuffer : Bool) : String :=
  unit.name ++ (if fromBuffer then styled p.colors .cyan false " (buffer)" else "") ++ "\n"

/-- The line of a failed import. -/
def importErrorLine (p : Printing) (path : Path) (e : ImportError) : String :=
  styled p.colors .red true "unresolved" ++
    styled p.colors .white false (" " ++ path.text ++ ": ") ++ e.message ++ "\n"

/-! ## Commands -/

/-- The end of a failed command. -/
def failed (f : Failure) (told : String) (machine : Machine) : Exit :=
  { code := 1, stderr := told ++ f.report, machine }

/-- The exit code by the number of failures. -/
def exitCode (failures : Nat) : Nat :=
  if failures = 0 then 0 else 1

/-- What a build on a disk works with. -/
def buildEnv (d : Disk) : BuildEnv where
  disk := d
  reader := d.reader
  search := d.search

/-- Prints the input for the compiler. -/
def emitInput (p : Printing) (machine : Machine) (workspace : Workspace)
    (settings : Settings) (told : List Notice) : Exit :=
  let run := Build.compileAll (buildEnv machine.disk)
    (Compiler.emitInput fun text printed => (.ok (), printed ++ text)) workspace settings ""
  let stderr := p.notices (told ++ run.notices)
  match run.result with
  | .error e => failed { message := "compile failed", causes := e.chain } stderr machine
  | .ok _ =>
    { code := exitCode (countOf .error run.notices), stdout := run.state, stderr, machine }

/-- Compiles the sources and prints a summary. -/
def compile (p : Printing) (machine : Machine) (name : String) (workspace : Workspace)
    (settings : Settings) (told : List Notice) : Exit :=
  let run := Build.compileAll (buildEnv machine.disk) (Compiler.process name) workspace
    settings machine
  let stderr := p.notices (told ++ run.notices)
  match run.result with
  | .error e => failed { message := "compile failed", causes := e.chain } stderr run.state
  | .ok s =>
    let errors := countOf .error run.notices
    { code := exitCode errors
      stdout := summaryLine p s errors (countOf .warning run.notices)
      stderr, machine := run.state }

/-- Lists the sources in the order in which they would be compiled, then the failed
    imports. -/
def sources (p : Printing) (machine : Machine) (workspace : Workspace)
    (settings : Settings) (told : List Notice) : Exit :=
  let reader := machine.disk.reader
  let collected := Build.collect (buildEnv machine.disk) workspace settings
  match collected.result with
  | .error e =>
    failed { message := "cannot collect sources", causes := e.chain }
      (p.notices (told ++ collected.notices)) machine
  | .ok (project, c) =>
    let set := c.compilationSet project settings.optimizerRuns
    let fromBuffer (unit : CompilationUnit) : Bool :=
      (c.get? (reader.key unit.path)).any fun doc => doc.origin = .buffer
    let listed := set.units.map fun unit => sourceLine p unit (fromBuffer unit)
    let errors := c.importErrors
    { code := exitCode errors.length
      stdout := String.join (listed ++ errors.map fun (path, e) => importErrorLine p path e)
      stderr := p.notices (told ++ collected.notices ++ c.compilationNotices project)
      machine }

/-- The command line's name and version. -/
def versionLine : String := "solbatch 0.2.0\n"

/-- The command line's usage. -/
def usage : String :=
  "Usage: solbatch [--color WHEN] [-v] [-q] <compile|sources> [--root DIR] [--buffers FILE]\n" ++
  "         [--optimizer-runs N] [--remap REMAPPING] [--solc NAME] [--emit-input]\n"

/-- Runs a command on what was loaded for it. -/
def runWith (env : Environment) (given : Given) (machine : Machine)
    (command : Printing → Workspace → Settings → List Notice → Exit) : Exit :=
  let printing := Printing.ofGiven env given
  let loaded := load machine.disk given
  match loaded.result with
  | .error f => failed f (printing.notices loaded.notices) machine
  | .ok (workspace, settings) => command printing workspace settings loaded.notices

/-- Runs a command line. -/
def run (args : List String) (env : Environment) (disk : Disk) : Exit :=
  let machine : Machine := { disk }
  match Request.ofArgs? args with
  | none => { code := 2, stderr := usage, machine }
  | some .help => { code := 0, stdout := usage, machine }
  | some .version => { code := 0, stdout := versionLine, machine }
  | some (.sources given) =>
    runWith env given machine fun p workspace settings told =>
      sources p machine workspace settings told
  | some (.compile given) =>
    runWith env given machine fun p workspace settings told =>
      if given.emitInput then emitInput p machine workspace settings told
      else
        let name := (given.solc <|> settings.solc).getD Compiler.defaultName
        compile p machine name workspace settings told

end CommandLine

end SolidityBuild
