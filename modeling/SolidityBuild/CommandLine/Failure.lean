import SolidityBuild.Build

/-! # Failures: a message and the causes behind it

    A failure is reported with its causes, the nearest one first. An error that only passes
    on another one has the same text as its cause.
-/

namespace SolidityBuild

/-- The texts of the causes behind a message, the message first. -/
abbrev Chain := List String

/-- The chain of a refused manifest. -/
def Manifest.Fault.chain (f : Manifest.Fault) : Chain :=
  f.message :: match f with
    | .unreadable e => [e.message]
    | .malformed => [malformedText]
    | .outside .. => []

/-- The chain of refused settings. -/
def Settings.Fault.chain (f : Settings.Fault) : Chain :=
  f.message :: match f with
    | .unreadable e => [e.message]
    | .malformed => [malformedText]

/-- The chain of a project that cannot be loaded. -/
def Project.Fault.chain (f : Project.Fault) : Chain :=
  f.message :: match f with
    | .manifest f => f.chain
    | .remapping f => [f.message]

/-- The chain of a build that ends early. -/
def BuildError.chain (e : BuildError) : Chain :=
  e.message :: match e with
    | .noRoot => []
    | .project f => f.chain
    | .search e => [e.message]
    | .compiler e => [e.message]

namespace CommandLine

/-- A failed command: what failed, and why. -/
structure Failure where
  message : String
  causes : Chain := []
deriving DecidableEq, Inhabited

namespace Failure

/-- A text whose first line starts with one mark and every other one with another. -/
def marked (first other : String) (text : String) : String :=
  match Text.pieces '\n' text.toList with
  | [] => first
  | line :: rest =>
    first ++ String.ofList line ++
      String.join (rest.map fun line => "\n" ++ other ++ String.ofList line)

/-- A number in five places, with a colon and a blank. -/
def numbered (n : Nat) : String :=
  let digits := toString n
  String.ofList (List.replicate (5 - digits.length) ' ') ++ digits ++ ": "

/-- The causes on lines of their own; they are numbered when there are several. -/
def causeLines : Chain → List String
  | [cause] => [marked "    " "    " cause]
  | causes => causes.mapIdx fun n cause => marked (numbered n) "       " cause

/-- The report of a failure. -/
def report (f : Failure) : String :=
  "Error: " ++ f.message ++
    (if f.causes.isEmpty then ""
      else "\n\nCaused by:" ++ String.join ((causeLines f.causes).map ("\n" ++ ·))) ++ "\n"

end Failure

end CommandLine

end SolidityBuild
