import SolidityBuild.Compiler.Basic
import SolidityBuild.Compiler.Output
import SolidityBuild.Disk.Launch
import SolidityBuild.Text.Utf8

/-! # The compiler as a process

    The process gets standard JSON and prints its output. Reported errors become
    diagnostics. Unless one of them is grave, each contract is written to a file of its name
    in the artifact directory.
-/

namespace SolidityBuild

/-- A disk, and the runs of programs on it so far. -/
structure Machine where
  disk : Disk
  invocations : List Invocation := []

namespace Compiler

/-- The name of the compiler when none is configured. -/
def defaultName : String := "solc"

/-! ## Artifacts -/

/-- The directory for artifacts: the build directory, else `bin` in the project. -/
def artifactDir (target : CompileTarget) : Path :=
  match target.buildDir with
  | some directory => ⟨directory⟩
  | none => Path.joinText ⟨target.projectPath⟩ "bin"

/-- The file for a contract. -/
def artifactPath (directory : Path) (c : Contract) : Path :=
  directory.joinText (c.name ++ ".json")

/-- Writes the file for a contract, and the directory if it is missing. -/
def writeArtifact (d : Disk) (directory : Path) (c : Contract) : Disk.Change :=
  match d.makeDirAll directory with
  | (.ok (), d) => d.write (artifactPath directory c) c.json.pretty.toUTF8
  | failed => failed

/-- Writes the files for some contracts up to the first that fails, and counts them. -/
def writeArtifacts (directory : Path) : Disk → List Contract → CompilerRun Disk Nat
  | d, [] => { outcome := .ok 0, state := d }
  | d, c :: rest =>
    let path := artifactPath directory c
    match writeArtifact d directory c with
    | (.error e, d) => { outcome := .error (.io path e.message), state := d }
    | (.ok (), d) =>
      let after := writeArtifacts directory d rest
      { after with
        outcome := after.outcome.map (· + 1)
        notices := .debug (c.source ++ ":" ++ c.name ++ " -> " ++ path.text) :: after.notices }

/-! ## Output -/

/-- Reports what a compiler printed and writes its artifacts; answers their number. -/
def processOutput (text : String) (target : CompileTarget) (d : Disk) : CompilerRun Disk Nat :=
  match CompilerOutput.ofText? text with
  | none => { outcome := .error .malformed, state := d }
  | some output =>
    let diagnostics := output.errors.map ReportedError.diagnostic
    let reported := diagnostics.map Notice.diagnostic
    if diagnostics.any fun d => d.severity = .error then
      { outcome := .ok 0, state := d
        notices := reported ++ [.info "compilation failed, no artifacts written"] }
    else
      let directory := artifactDir target
      let run := writeArtifacts directory d output.contracts
      let summary := match run.outcome with
        | .ok count =>
          [.info ("wrote " ++ toString count ++ " artifacts to " ++ directory.text)]
        | .error _ => []
      { run with notices := reported ++ run.notices ++ summary }

/-! ## Running -/

/-- What a program printed: a failed one that printed nothing is refused with its message. -/
def printed (program : Program) : Except CompilerError String :=
  let stdout := Text.textOfBytes program.stdout
  if program.exitCode ≠ 0 && Text.isBlankText stdout then
    .error (.refused (Text.trim (Text.textOfBytes program.stderr)))
  else .ok stdout

/-- The compiler of a name: it runs in the project and gets the set as standard JSON. -/
def process (name : String) : Compiler Machine := fun set target machine =>
  if set.units.isEmpty then
    { outcome := .ok (), notices := [.info "nothing to compile"], state := machine }
  else match machine.disk.launch name ⟨target.projectPath⟩ with
    | .error e => { outcome := .error (.launch name e.message), state := machine }
    | .ok (program, cwd) =>
      let invocation : Invocation :=
        { arguments := ["--standard-json"], cwd, input := set.standardJson }
      let invocations := machine.invocations ++ [invocation]
      match printed program with
      | .error e => { outcome := .error e, state := { machine with invocations } }
      | .ok text =>
        let run := processOutput text target machine.disk
        { outcome := run.outcome.map fun _ => ()
          notices := run.notices
          state := { disk := run.state, invocations } }

end Compiler

end SolidityBuild
