import Std.Data.HashMap
import Std.Data.HashSet
import SolidityBuild.Path.Basic

/-! # Import graphs: which document imports which

    Documents are told apart by the parts of their paths and keep their first spelling. The
    graph remembers the order in which they came, and for each one its imports in order.
-/

namespace SolidityBuild

/-- What tells documents in a graph apart. -/
abbrev Path.Key := List Path.Part

/-- A document in an import graph. -/
structure ImportNode where
  path : Path
  /-- what the document imports, each once -/
  imports : List Path := []
deriving DecidableEq, Inhabited

/-- The document with one more import, unless it has it already. -/
def ImportNode.addImport (node : ImportNode) (p : Path) : ImportNode :=
  if node.imports.any p.same then node else { node with imports := node.imports ++ [p] }

/-- Documents and their imports. -/
structure ImportGraph where
  /-- the documents in the order in which they came -/
  order : Array Path := #[]
  nodes : Std.HashMap Path.Key ImportNode := {}
deriving Inhabited

namespace ImportGraph

/-- The document at a path. -/
def get? (g : ImportGraph) (p : Path) : Option ImportNode :=
  g.nodes[p.parts]?

/-- What the document at a path imports. -/
def importsOf (g : ImportGraph) (p : Path) : List Path :=
  ((g.get? p).map ImportNode.imports).getD []

/-- The number of documents. -/
def size (g : ImportGraph) : Nat :=
  g.nodes.size

/-- The graph with a document. -/
def addModule (g : ImportGraph) (p : Path) : ImportGraph :=
  if g.nodes.contains p.parts then g
  else { order := g.order.push p, nodes := g.nodes.insert p.parts { path := p } }

/-- The graph with both documents, where `importer` imports `imported`. -/
def addImport (g : ImportGraph) (importer imported : Path) : ImportGraph :=
  let g := (g.addModule importer).addModule imported
  { g with nodes := g.nodes.alter importer.parts fun node => node.map (·.addImport imported) }

/-! ## Walking -/

/-- A document on the way of a walk, with the imports that are not tried yet. -/
structure Frame where
  path : Path
  left : List Path

/-- The frame of a document that the walk just came to. -/
def frame (g : ImportGraph) (p : Path) : Frame :=
  { path := p, left := g.importsOf p }

/-- The number of steps that some frames still take by themselves. -/
def weight (stack : List Frame) : Nat :=
  stack.foldr (fun f n => f.left.length + 1 + n) 0

/-- The documents that a walk has not come to yet. -/
abbrev Unvisited := Std.HashSet Path.Key

/-- All documents. -/
def unvisited (g : ImportGraph) : Unvisited :=
  g.order.foldl (fun keys p => keys.insert p.parts) {}

theorem size_erase_lt {keys : Unvisited} {key : Path.Key} (h : keys.contains key) :
    (keys.erase key).size < keys.size := by
  have hm : key ∈ keys := h
  have hpos : keys.size ≠ 0 := by
    intro hz
    have hempty : keys.isEmpty := by simp [Std.HashSet.isEmpty_eq_size_eq_zero, hz]
    exact Std.HashSet.isEmpty_iff_forall_not_mem.1 hempty key hm
  rw [Std.HashSet.size_erase, if_pos hm]
  omega

end ImportGraph

end SolidityBuild
