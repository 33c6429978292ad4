import SolidityBuild.CompilationSet

/-! # Compilers: what a set of sources is handed to

    A compiler works on a state, tells notices and either succeeds or cannot give an output.
    Errors in the sources are diagnostics among the notices, not failures.
-/

namespace SolidityBuild

/-- Why a compiler gives no output. -/
inductive CompilerError where
  /-- its process cannot be started -/
  | launch (program message : String)
  /-- its process failed and says why -/
  | refused (message : String)
  /-- its output cannot be understood -/
  | malformed
  /-- its artifacts cannot be written -/
  | io (path : Path) (message : String)
deriving DecidableEq, Inhabited

namespace CompilerError

/-- What is said of an output that cannot be understood. -/
def malformedText : String := "the text is not a JSON record of compiler output"

/-- The message for a failed compiler. -/
def message : CompilerError → String
  | launch program message => "Failed to launch compiler '" ++ program ++ "': " ++ message
  | refused message => "Unexpected compiler output: " ++ message
  | malformed => "Unexpected compiler output: " ++ malformedText
  | io path message => "I/O error writing " ++ path.text ++ ": " ++ message

end CompilerError

/-- What running a compiler, or a part of it, came to. -/
structure CompilerRun (σ α : Type) where
  outcome : Except CompilerError α
  notices : List Notice := []
  state : σ

/-- A compiler that works on a state. -/
abbrev Compiler (σ : Type) := CompilationSet → CompileTarget → σ → CompilerRun σ Unit

namespace Compiler

/-- Writes the input for the compiler, and a line feed, instead of compiling. -/
def emitInput (write : String → σ → Except String Unit × σ) : Compiler σ :=
  fun set target state =>
    match write (set.standardJson ++ "\n") state with
    | (.ok (), state) => { outcome := .ok (), state }
    | (.error message, state) =>
      { outcome := .error (.io ⟨target.projectPath⟩ message), state }

end Compiler

end SolidityBuild
