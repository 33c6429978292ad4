import SolidityBuild.Resolution
import SolidityBuild.Source.Import

/-! # Documents: source files as a run sees them

    A document's text, and with it its imports, never change. Following the imports records
    the documents that they lead to and the failures of those that lead to none.
-/

namespace SolidityBuild

/-- Where the text of a document comes from. -/
inductive Origin where
  /-- an open buffer, with edits that may not be saved -/
  | buffer
  | disk
deriving DecidableEq, Inhabited

/-- Why an import cannot be followed. -/
inductive ImportError where
  /-- it leads to no path -/
  | unresolved (e : ResolutionError)
  /-- the path that it leads to cannot be read -/
  | unreadable (specifier : String) (path : Path) (e : ReadError)
deriving DecidableEq, Inhabited

namespace ImportError

/-- The import that cannot be followed. -/
def specifier : ImportError → String
  | unresolved e => e.specifier
  | unreadable specifier _ _ => specifier

/-- The message for an import that cannot be followed. -/
def message : ImportError → String
  | unresolved e => e.message
  | unreadable specifier path e =>
    "Cannot read import '" ++ specifier ++ "' at " ++ path.text ++ ": " ++ e.message

end ImportError

/-- A source file. -/
structure Document where
  /-- the key of its path -/
  path : Path
  code : String
  origin : Origin
  /-- the imports of the text, in order -/
  imports : List String
  /-- the keys of the documents that the imports lead to, each once -/
  dependencies : List Path := []
  errors : List ImportError := []
deriving DecidableEq, Inhabited

/-- A document whose imports are not followed yet. -/
def Document.ofText (path : Path) (code : String) (origin : Origin) : Document :=
  { path, code, origin, imports := Source.imports code }

end SolidityBuild
