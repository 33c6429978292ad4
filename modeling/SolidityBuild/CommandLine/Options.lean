import SolidityBuild.Path.Basic
import SolidityBuild.Text.Split

/-! # Options: what the arguments of a command line say

    Arguments are read one after the other. Flags may stand before the command, where only
    the common ones are known, and after it. A flag that takes a value takes it after an
    equals sign or from the next argument, which must not look like a flag. Every mistake is
    a usage error.
-/

namespace SolidityBuild

namespace CommandLine

/-- A flag. -/
inductive Flag where
  | color
  | verbose
  | quiet
  | help
  | version
  | root
  | buffers
  | optimizerRuns
  | remap
  | solc
  | emitInput
deriving DecidableEq, Inhabited

namespace Flag

/-- The name of a flag after its two dashes. -/
def name : Flag → String
  | color => "color"
  | verbose => "verbose"
  | quiet => "quiet"
  | help => "help"
  | version => "version"
  | root => "root"
  | buffers => "buffers"
  | optimizerRuns => "optimizer-runs"
  | remap => "remap"
  | solc => "solc"
  | emitInput => "emit-input"

/-- The letter of a flag after a single dash. -/
def letter? : Flag → Option Char
  | verbose => some 'v'
  | quiet => some 'q'
  | help => some 'h'
  | version => some 'V'
  | _ => none

/-- Whether a flag takes a value. -/
def takesValue : Flag → Bool
  | color | root | buffers | optimizerRuns | remap | solc => true
  | _ => false

/-- The flags that are known before the command. -/
def common : List Flag :=
  [color, verbose, quiet, help, version]

/-- The flags that both commands know. -/
def ofSources : List Flag :=
  [color, verbose, quiet, help, root, buffers, optimizerRuns, remap]

/-- The flags that the compile command knows. -/
def ofCompile : List Flag :=
  ofSources ++ [solc, emitInput]

end Flag

/-- The flags that were given, with their values. -/
structure Given where
  color : Option String := none
  /-- the number of times that more messages were asked for -/
  verbose : Nat := 0
  quiet : Bool := false
  root : Option Path := none
  buffers : Option Path := none
  optimizerRuns : Option Nat := none
  remappings : List String := []
  solc : Option String := none
  emitInput : Bool := false
deriving DecidableEq, Inhabited

namespace Given

/-- The first value of a flag that may be given once. -/
def once (old : Option α) (new : Option α) : Option (Option α) :=
  match old with
  | some _ => none
  | none => new.map some

/-- A path, which must not be empty. -/
def path? (value : String) : Option Path :=
  if value.isEmpty then none else some ⟨value⟩

/-- The magnitude of an unsigned 32-bit integer. -/
def word32? (digits : List Char) : Option Nat :=
  if digits.isEmpty || digits.any fun c => !c.isDigit then none
  else
    let n := digits.foldl (fun n c => n * 10 + (c.toNat - '0'.toNat)) 0
    if n < Nat.pow 2 32 then some n else none

/-- A number of optimizer runs, which may have a sign. -/
def runs? (value : String) : Option Nat :=
  match value.toList with
  | '+' :: digits => word32? digits
  | '-' :: digits => (word32? digits).filter (· = 0)
  | digits => word32? digits

/-- One more flag with its value; none for a repeated flag or a bad value. -/
def take? (g : Given) (flag : Flag) (value : String) : Option Given :=
  match flag with
  | .color => (once g.color (some value)).map fun color => { g with color }
  | .verbose => some { g with verbose := g.verbose + 1 }
  | .quiet => if g.quiet then none else some { g with quiet := true }
  | .root => (once g.root (path? value)).map fun root => { g with root }
  | .buffers => (once g.buffers (path? value)).map fun buffers => { g with buffers }
  | .optimizerRuns =>
    (once g.optimizerRuns (runs? value)).map fun optimizerRuns => { g with optimizerRuns }
  | .remap => some { g with remappings := g.remappings ++ [value] }
  | .solc => (once g.solc (some value)).map fun solc => { g with solc }
  | .emitInput => if g.emitInput then none else some { g with emitInput := true }
  | .help | .version => some g

/-- The flags given after the command, where those given before it stand in for missing
    common ones. -/
def after (g before : Given) : Given :=
  { g with
    color := g.color <|> before.color
    verbose := if g.verbose = 0 then before.verbose else g.verbose
    quiet := g.quiet || before.quiet }

end Given

/-! ## Reading arguments -/

/-- How reading some arguments ends. -/
inductive Ending where
  | done
  | help
  | version
  /-- a command, with the arguments after it -/
  | command (name : String) (rest : List String)
deriving DecidableEq, Inhabited

/-- Whether an argument can be the value of the flag before it. -/
def isValue (arg : String) : Bool :=
  arg = "-" || arg.toList.head? ≠ some '-'

/-- Reads the letters after a single dash. -/
def readLetters (known : List Flag) (g : Given) : List Char → Option (Given × Ending)
  | [] => some (g, .done)
  | c :: rest =>
    match known.find? fun flag => flag.letter? = some c with
    | none => none
    | some .help => some (g, .help)
    | some .version => some (g, .version)
    | some flag => (g.take? flag "").bind fun g => readLetters known g rest

/-- The known flag of a name, and the value that is attached to it. -/
def longFlag? (known : List Flag) (cs : List Char) : Option (Flag × Option String) :=
  let (name, value) := match Text.splitFirst '=' cs with
    | some (name, value) => (name, some (String.ofList value))
    | none => (cs, none)
  (known.find? fun flag => flag.name.toList = name).map fun flag => (flag, value)

/-- Reads arguments to the end or to a command, of which there is only one more when
    `commands?`. -/
def readArgs (known : List Flag) (commands? : Bool) (g : Given) :
    List String → Option (Given × Ending)
  | [] => some (g, .done)
  | arg :: rest =>
    match arg.toList with
    | ['-', '-'] => if rest.isEmpty then some (g, .done) else none
    | '-' :: '-' :: cs =>
      match longFlag? known cs with
      | none => none
      | some (flag, value) =>
        match flag.takesValue, value, rest with
        | true, some value, rest => (g.take? flag value).bind fun g => readArgs known commands? g rest
        | true, none, value :: rest =>
          if isValue value then
            (g.take? flag value).bind fun g => readArgs known commands? g rest
          else none
        | true, none, [] => none
        | false, some _, _ => none
        | false, none, rest =>
          match flag with
          | .help => some (g, .help)
          | .version => some (g, .version)
          | flag => (g.take? flag "").bind fun g => readArgs known commands? g rest
    | '-' :: c :: cs =>
      match readLetters known g (c :: cs) with
      | some (g, .done) => readArgs known commands? g rest
      | ended => ended
    | _ => if commands? then some (g, .command arg rest) else none

/-- What a command line asks for. -/
inductive Request where
  | compile (given : Given)
  | sources (given : Given)
  | help
  | version
deriving DecidableEq, Inhabited

/-- The flags that a command knows. -/
def knownTo? : String → Option (List Flag)
  | "compile" => some Flag.ofCompile
  | "sources" => some Flag.ofSources
  | _ => none

/-- Whether help is there for some words after the help command. -/
def hasHelp : List String → Bool
  | [] => true
  | [word] => word = "help" || (knownTo? word).isSome
  | _ => false

/-- What some arguments ask for; none for a usage error. -/
def Request.ofArgs? (args : List String) : Option Request := do
  match ← readArgs Flag.common true {} args with
  | (_, .help) => pure .help
  | (_, .version) => pure .version
  | (_, .done) => none
  | (before, .command name rest) =>
    if name = "help" then
      if hasHelp rest then pure .help else none
    else
      let known ← knownTo? name
      match ← readArgs known false {} rest with
      | (_, .help) => pure .help
      | (given, .done) =>
        let given := given.after before
        pure (if name = "compile" then .compile given else .sources given)
      | _ => none

end CommandLine

end SolidityBuild
