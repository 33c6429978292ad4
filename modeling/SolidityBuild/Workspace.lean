import SolidityBuild.Json.Reader
import SolidityBuild.Json.Record
import SolidityBuild.Path.Basic

/-! # Workspaces: a root directory and open buffers

    Buffers hold text that may not be saved yet. A list of them is written in JSON as
    records with a path and a text; relative paths are seen from the root.
-/

namespace SolidityBuild

/-- An open buffer. -/
structure OpenBuffer where
  path : Path
  text : String
deriving DecidableEq, Inhabited

/-- What a run works on. -/
structure Workspace where
  root : Option Path := none
  buffers : List OpenBuffer := []
deriving DecidableEq, Inhabited

namespace OpenBuffer

/-- The names of the fields, in order. -/
def fieldNames : List String :=
  ["path", "text"]

/-- Decodes a buffer. -/
def ofJson? (j : Json) : Option OpenBuffer := do
  match ← j.fields? fieldNames false with
  | [path, text] =>
    let path ← Json.text? path
    let text ← Json.text? text
    pure { path := ⟨path⟩, text }
  | _ => none

/-- The buffer with its path seen from a root. -/
def seenFrom (root : Option Path) (b : OpenBuffer) : OpenBuffer :=
  match root with
  | some root => { b with path := root.join b.path }
  | none => b

/-- Reads a list of buffers. -/
def listOfText? (text : String) (root : Option Path) : Option (List OpenBuffer) := do
  match ← Json.ofText? text with
  | .array items =>
    let buffers ← items.mapM ofJson?
    pure (buffers.map (seenFrom root))
  | _ => none

end OpenBuffer

end SolidityBuild
