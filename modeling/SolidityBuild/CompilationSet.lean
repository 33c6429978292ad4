import SolidityBuild.Collection
import SolidityBuild.ImportGraph.Cycle
import SolidityBuild.ImportGraph.Order
import SolidityBuild.Json.Printer

/-! # Compilation sets: the sources of one compiler run

    A set lists sources in the order in which the compiler gets them, dependencies first,
    with the settings of the run. Its standard JSON is the text that the compiler reads.
-/

namespace SolidityBuild

/-- One source for the compiler. -/
structure CompilationUnit where
  path : Path
  /-- the name that the compiler knows the source by -/
  name : String
  content : String
deriving DecidableEq, Inhabited

/-- The unit of a document; its name is the path with forward slashes only. -/
def CompilationUnit.ofDocument (doc : Document) : CompilationUnit :=
  { path := doc.path, name := doc.path.forward, content := doc.code }

/-- Sources and settings for one compiler run. -/
structure CompilationSet where
  units : List CompilationUnit
  /-- zero switches the optimizer off -/
  optimizerRuns : Nat
  remappings : List String := []
deriving DecidableEq, Inhabited

namespace CompilationSet

/-- Whether the optimizer is on. -/
def optimizerEnabled (set : CompilationSet) : Bool :=
  set.optimizerRuns != 0

/-! ## Standard JSON -/

/-- The outputs that the compiler is asked for: the syntax tree of each source, and these
    parts of each contract. -/
def contractOutputs : List String :=
  ["abi", "devdoc", "userdoc", "storageLayout", "metadata", "evm.bytecode",
    "evm.deployedBytecode", "evm.methodIdentifiers", "evm.gasEstimates"]

/-- The selection of outputs, for every source and every contract. -/
def outputSelection : Json :=
  Json.record [("*", Json.record
    [("", Json.ofStrings ["ast"]), ("*", Json.ofStrings contractOutputs)])]

/-- The sources by name, in order. -/
def sourcesJson (units : List CompilationUnit) : Json :=
  Json.record (units.map fun unit =>
    (unit.name, Json.record [("content", Json.ofString unit.content)]))

/-- The settings; no remappings are left out. -/
def settingsJson (set : CompilationSet) : Json :=
  Json.record (
    [("optimizer", Json.record
      [("enabled", .bool set.optimizerEnabled), ("runs", Json.ofNat set.optimizerRuns)])] ++
    (if set.remappings.isEmpty then []
      else [("remappings", Json.ofStrings set.remappings)]) ++
    [("outputSelection", outputSelection)])

/-- The input for the compiler as JSON. -/
def toJson (set : CompilationSet) : Json :=
  Json.record [("language", Json.ofString "Solidity"),
    ("sources", sourcesJson set.units), ("settings", set.settingsJson)]

/-- The input for the compiler as text. -/
def standardJson (set : CompilationSet) : String :=
  set.toJson.pretty

end CompilationSet

namespace Collection

/-! ## From a collection -/

/-- The graph with a document and its dependencies. -/
def addToGraph (g : ImportGraph) (doc : Document) : ImportGraph :=
  doc.dependencies.foldl (fun g dep => g.addImport doc.path dep) (g.addModule doc.path)

/-- Which of the documents imports which. -/
def graph (c : Collection) : ImportGraph :=
  c.documents.foldl addToGraph {}

/-- The documents outside the build directory, dependencies first, for the compiler. -/
def compilationSet (c : Collection) (project : Project) (optimizerRuns : Nat) :
    CompilationSet :=
  let order := c.graph.dependencyOrder.filter fun path => !project.inBuildDir path
  { units := (order.filterMap c.get?).map .ofDocument
    optimizerRuns
    remappings := project.compilerRemappings }

/-- What is told when the documents are put in order. -/
def compilationNotices (c : Collection) (project : Project) : List Notice :=
  let cycle := match c.graph.findCycle with
    | some cycle => [.debug ("import cycle: " ++ " -> ".intercalate (cycle.map Path.text))]
    | none => []
  cycle ++ (c.graph.dependencyOrder.filter project.inBuildDir).map fun path =>
    .debug ("skipping " ++ path.text ++ " (build directory)")

end Collection

end SolidityBuild
