import SolidityBuild.Path.Basic

/-! # Diagnostics: messages about sources -/

namespace SolidityBuild

/-- How grave a diagnostic is. -/
inductive Severity where
  | error
  | warning
  | info
deriving DecidableEq, Inhabited

/-- The word for a severity. -/
def Severity.word : Severity → String
  | error => "error"
  | warning => "warning"
  | info => "info"

/-- A message, with the file and the byte range that it is about, as far as they are
    known. -/
structure Diagnostic where
  severity : Severity
  message : String
  path : Option Path := none
  range : Option (Nat × Nat) := none
  /-- a short name for the kind of message -/
  code : Option String := none
deriving DecidableEq, Inhabited

namespace Diagnostic

/-- The severity with the code, if there is one. -/
def label (d : Diagnostic) : String :=
  d.severity.word ++ match d.code with
    | some code => "[" ++ code ++ "]"
    | none => ""

/-- The diagnostic on one line, without its range. -/
def display (d : Diagnostic) : String :=
  (match d.path with
    | some path => path.text ++ ": "
    | none => "") ++ d.label ++ ": " ++ d.message

end Diagnostic

end SolidityBuild
