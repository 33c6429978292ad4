import SolidityBuild.Diagnostic

/-! # Notices: what a run tells while it goes on

    A run tells log messages and diagnostics, in one order. Which messages are shown depends
    on the level that was asked for; diagnostics are always shown.
-/

namespace SolidityBuild

/-- The level of a log message, the gravest first. -/
inductive Level where
  | error
  | warn
  | info
  | debug
  | trace
deriving DecidableEq, Inhabited

namespace Level

/-- The place of a level in the order. -/
def rank : Level → Nat
  | error => 0
  | warn => 1
  | info => 2
  | debug => 3
  | trace => 4

/-- The name of a level. -/
def name : Level → String
  | error => "ERROR"
  | warn => "WARN"
  | info => "INFO"
  | debug => "DEBUG"
  | trace => "TRACE"

/-- The last level that is shown, by the number of times that more was asked for; being
    quiet overrides it. -/
def shown (verbose : Nat) (quiet : Bool) : Level :=
  if quiet then .error
  else match verbose with
    | 0 => .warn
    | 1 => .info
    | 2 => .debug
    | _ => .trace

end Level

/-- One thing that a run tells. -/
inductive Notice where
  | log (level : Level) (text : String)
  | diagnostic (d : Diagnostic)
deriving DecidableEq, Inhabited

namespace Notice

/-- A warning. -/
def warn (text : String) : Notice :=
  .log .warn text

/-- A message about the progress. -/
def info (text : String) : Notice :=
  .log .info text

/-- A message about details. -/
def debug (text : String) : Notice :=
  .log .debug text

/-- The diagnostics among some notices. -/
def diagnostics (notices : List Notice) : List Diagnostic :=
  notices.filterMap fun
    | .diagnostic d => some d
    | .log .. => none

end Notice

end SolidityBuild
