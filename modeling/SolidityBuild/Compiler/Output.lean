import SolidityBuild.Diagnostic
import SolidityBuild.Json.Reader
import SolidityBuild.Json.Record

/-! # Compiler output: reported errors and contracts

    The compiler prints a JSON record with the errors that it reports and the contracts of
    each source. Both may be missing. Contracts are kept as they are, in the order of their
    names, the last one of a name only.
-/

namespace SolidityBuild

/-- The place in a source that an error is about. -/
structure SourceLocation where
  file : String
  start : Int
  stop : Int
deriving DecidableEq, Inhabited

/-- An error as the compiler reports it. -/
structure ReportedError where
  severity : String
  message : String
  kind : Option String
  location : Option SourceLocation
deriving DecidableEq, Inhabited

/-- A contract of a source, as the compiler gives it. -/
structure Contract where
  source : String
  name : String
  json : Json
deriving Inhabited

/-- What a compiler prints. -/
structure CompilerOutput where
  errors : List ReportedError
  contracts : List Contract
deriving Inhabited

namespace SourceLocation

/-- Decodes a place. -/
def ofJson? (j : Json) : Option SourceLocation := do
  match ← j.fields? ["file", "start", "end"] false with
  | [file, start, stop] =>
    let file ← Json.text? file
    let start ← Json.int64? start
    let stop ← Json.int64? stop
    pure { file, start, stop }
  | _ => none

/-- The byte range of a place, unless it is negative or reversed. -/
def range? (l : SourceLocation) : Option (Nat × Nat) :=
  if 0 ≤ l.start && l.start ≤ l.stop then some (l.start.toNat, l.stop.toNat) else none

end SourceLocation

namespace ReportedError

/-- Decodes a place that may be missing or null. -/
def location? : Option Json → Option (Option SourceLocation)
  | none => some none
  | some .null => some none
  | some j => (SourceLocation.ofJson? j).map some

/-- Decodes a reported error. -/
def ofJson? (j : Json) : Option ReportedError := do
  match ← j.fields? ["severity", "message", "type", "sourceLocation"] false with
  | [severity, message, kind, location] =>
    let severity ← Json.text? severity
    let message ← Json.text? message
    let kind ← Json.optionalText? kind
    let location ← location? location
    pure { severity, message, kind, location }
  | _ => none

/-- The severity of a diagnostic; every word but two means information. -/
def severityOf : String → Severity
  | "error" => .error
  | "warning" => .warning
  | _ => .info

/-- The diagnostic for a reported error. -/
def diagnostic (e : ReportedError) : Diagnostic where
  severity := severityOf e.severity
  message := e.message
  path := e.location.map fun l => ⟨l.file⟩
  range := e.location.bind SourceLocation.range?
  code := e.kind

end ReportedError

namespace CompilerOutput

/-- Decodes the list of errors, which may be missing. -/
def errors? : Option Json → Option (List ReportedError)
  | none => some []
  | some (.array items) => items.mapM ReportedError.ofJson?
  | some _ => none

/-- Decodes the members of an object, the last one of a name only, in the order of their
    names. -/
def members? (decode : Json → Option α) : Json → Option (List (String × α))
  | .object members => do
    let pairs ← members.mapM fun (name, j) => do
      let name ← name.text?
      let value ← decode j
      pure (name, value)
    pure (ByName.sort pairs)
  | _ => none

/-- The containers that a contract lies in. -/
def contractDepth : Nat := 3

/-- Decodes the contracts of all sources, which may be missing. -/
def contracts? : Option Json → Option (List Contract)
  | none => some []
  | some j => do
    let sources ← members? (members? (Json.kept? (Json.depthLimit - contractDepth))) j
    pure (sources.flatMap fun (source, contracts) =>
      contracts.map fun (name, json) => { source, name, json })

/-- Decodes what a compiler prints. -/
def ofJson? (j : Json) : Option CompilerOutput := do
  match ← j.fields? ["errors", "contracts"] true with
  | [errors, contracts] =>
    let errors ← errors? errors
    let contracts ← contracts? contracts
    pure { errors, contracts }
  | _ => none

/-- Reads what a compiler prints. -/
def ofText? (text : String) : Option CompilerOutput :=
  (Json.ofText? text).bind ofJson?

end CompilerOutput

end SolidityBuild
