import SolidityBuild.ReadError
import SolidityBuild.Toml.Reader

/-! # Settings: the configuration of one run -/

namespace SolidityBuild

/-- The settings that a run starts from. -/
structure Settings where
  /-- the directory under the root that holds dependency packages -/
  packagesDir : String := "lib"
  /-- the contracts directory inside each of those -/
  contractsDir : String := "src"
  /-- zero switches the optimizer off -/
  optimizerRuns : Nat := 200
  /-- written remappings, the one with the highest precedence first -/
  remappings : List String := []
  /-- the compiler's executable -/
  solc : Option String := none
deriving DecidableEq, Inhabited

namespace Settings

/-- The file at the root that holds the settings. -/
def fileName : String := "solbatch.toml"

/-- Why settings are refused. -/
inductive Fault where
  /-- the file cannot be read -/
  | unreadable (e : ReadError)
  /-- the text holds no settings -/
  | malformed
deriving DecidableEq, Inhabited

/-- What is said of a text that holds no settings. -/
def malformedText : String := "the text is not a TOML document of settings"

/-- The message for refused settings. -/
def Fault.message : Fault → String
  | unreadable e => "Failed to read settings file: " ++ e.message
  | malformed => "Failed to parse settings: " ++ malformedText

/-- A directory name, where the empty one is none. -/
def nonEmpty? (directory : String) : Option String :=
  if directory.isEmpty then none else some directory

/-- The dependency directory, if one is set. -/
def packagesDir? (s : Settings) : Option String :=
  nonEmpty? s.packagesDir

/-- The nested contracts directory, if one is set. -/
def contractsDir? (s : Settings) : Option String :=
  nonEmpty? s.contractsDir

/-! ## Decoding -/

/-- The text of a value. -/
def text? : Toml.Value → Option String
  | .string s => some s
  | _ => none

/-- An unsigned 32-bit integer. -/
def word32? : Toml.Value → Option Nat
  | .integer n => if 0 ≤ n && n < Int.pow 2 32 then some n.toNat else none
  | _ => none

/-- A list of texts. -/
def texts? : Toml.Value → Option (List String)
  | .array items => items.mapM text?
  | _ => none

/-- A field that keeps its default when it is missing. -/
def fieldOr (fallback : α) (decode : Toml.Value → Option α) (v : Option Toml.Value) :
    Option α :=
  match v with
  | none => some fallback
  | some v => decode v

/-- The settings that some fields give, looked up by place and by key. -/
def ofFields? (field : Nat → String → Option Toml.Value) : Option Settings := do
  let d : Settings := {}
  let packagesDir ← fieldOr d.packagesDir text? (field 0 "packages-dir")
  let contractsDir ← fieldOr d.contractsDir text? (field 1 "packages-contracts-dir")
  let optimizerRuns ← fieldOr d.optimizerRuns word32? (field 2 "optimizer-runs")
  let remappings ← fieldOr d.remappings texts? (field 3 "remappings")
  let solc ← fieldOr d.solc (fun v => (text? v).map some) (field 4 "solc")
  pure { packagesDir, contractsDir, optimizerRuns, remappings, solc }

/-- Decodes settings: a table of fields, or an array of their values in order. -/
def ofValue? : Toml.Value → Option Settings
  | .table entries => ofFields? fun _ key => Toml.Table.get? entries key
  | .array items => ofFields? fun place _ => items[place]?
  | _ => none

/-- Reads the `solidity` table of a document; without one the defaults stand. -/
def ofText (text : String) : Except Fault Settings :=
  match Toml.ofText? text with
  | none => .error .malformed
  | some table =>
    match Toml.Table.get? table "solidity" with
    | none => .ok {}
    | some v => match ofValue? v with
      | some settings => .ok settings
      | none => .error .malformed

end Settings

end SolidityBuild
