import SolidityBuild.Path.Normal
import SolidityBuild.ReadError
import SolidityBuild.Json.Reader
import SolidityBuild.Json.Record
import SolidityBuild.Json.Printer

/-! # Package manifests: where sources live and where build output goes

    Both directories are optional, an empty one counts as none, and slashes at the end do
    not count. A manifest is accepted only when the directories that it declares stay inside
    the package.
-/

namespace SolidityBuild

/-- The manifest of a package. -/
structure Manifest where
  name : Option String := none
  version : Option String := none
  /-- the declared source directory, as it is written -/
  solSources : Option String := none
  /-- the declared build directory, as it is written -/
  buildDir : Option String := none
deriving DecidableEq, Inhabited

namespace Manifest

/-- The file that holds a package's manifest. -/
def fileName : String := "dappFile.json"

/-- Why a manifest is refused. -/
inductive Fault where
  /-- the file cannot be read -/
  | unreadable (e : ReadError)
  /-- the text is no manifest -/
  | malformed
  /-- a declared directory may lie outside the package -/
  | outside (field directory : String)
deriving DecidableEq, Inhabited

/-- What is said of a text that is no manifest. -/
def malformedText : String := "the text is not a JSON record of a manifest"

/-- The message for a refused manifest. -/
def Fault.message : Fault → String
  | unreadable e => "Failed to read manifest file: " ++ e.message
  | malformed => "Failed to parse manifest: " ++ malformedText
  | outside field directory =>
    "Invalid manifest: " ++ field ++ " must be a relative path inside the package, got '" ++
      directory ++ "'"

/-! ## Declared directories -/

/-- A directory without the slashes at its end; none when nothing is left. -/
def trimmed? (directory : Option String) : Option String := do
  let chars := (← directory).toList.reverse.dropWhile (· = '/')
  if chars.isEmpty then none else some (String.ofList chars.reverse)

/-- The declared source directory. -/
def sources? (m : Manifest) : Option String :=
  trimmed? m.solSources

/-- The declared build directory. -/
def build? (m : Manifest) : Option String :=
  trimmed? m.buildDir

/-- Whether a directory is absolute or has a `..` part. -/
def escapes (directory : String) : Bool :=
  let path : Path := ⟨directory⟩
  path.isAbsolute || path.parts.contains .up

/-- Refuses a declared directory that may lie outside the package. -/
def check (field : String) (directory : Option String) : Except Fault Unit :=
  match directory with
  | some d => if escapes d then .error (.outside field d) else .ok ()
  | none => .ok ()

/-- Accepts a manifest whose declared directories stay inside the package. -/
def validate (m : Manifest) : Except Fault Unit := do
  check "sol_sources" m.sources?
  check "build_dir" m.build?

/-! ## JSON -/

/-- The names of the fields, in order. -/
def fieldNames : List String :=
  ["name", "version", "sol_sources", "build_dir"]

/-- Decodes a manifest; a missing field is none, and so is null. -/
def ofJson? (j : Json) : Option Manifest := do
  match ← j.fields? fieldNames true with
  | [name, version, sources, build] =>
    let name ← Json.optionalText? name
    let version ← Json.optionalText? version
    let solSources ← Json.optionalText? sources
    let buildDir ← Json.optionalText? build
    pure { name, version, solSources, buildDir }
  | _ => none

/-- Reads and validates a manifest. -/
def ofText (text : String) : Except Fault Manifest :=
  match (Json.ofText? text).bind ofJson? with
  | none => .error .malformed
  | some m => do
    m.validate
    pure m

/-- The manifest as a JSON object, without the fields that are none. -/
def toJson (m : Manifest) : Json :=
  Json.record ((fieldNames.zip [m.name, m.version, m.solSources, m.buildDir]).filterMap
    fun (name, value) => value.map fun v => (name, Json.ofString v))

end Manifest

end SolidityBuild
