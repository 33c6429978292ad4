import SolidityBuild.ImportGraph.Basic

/-! # Dependency order: every document after its imports

    A depth-first walk lists a document when all its imports are done. It starts at the
    documents in the order in which they came and tries imports in their order. An import
    that is on the way already closes a cycle and is passed over.
-/

namespace SolidityBuild.ImportGraph

/-- Goes on with a walk until no frame is left; answers the documents that are done and
    those that the walk has not come to. -/
def finish (g : ImportGraph) (white : Unvisited) (done : Array Path) :
    List Frame → Unvisited × Array Path
  | [] => (white, done)
  | ⟨path, []⟩ :: stack => finish g white (done.push path) stack
  | ⟨path, dep :: left⟩ :: stack =>
    if _h : white.contains dep.parts then
      finish g (white.erase dep.parts) done (g.frame dep :: ⟨path, left⟩ :: stack)
    else finish g white done (⟨path, left⟩ :: stack)
termination_by stack => (white.size, weight stack)
decreasing_by
  · exact Prod.Lex.right _ (by simp [weight])
  · exact Prod.Lex.left _ _ (size_erase_lt _h)
  · exact Prod.Lex.right _ (by simp [weight])

/-- Walks from one document, unless a walk came to it before. -/
def finishFrom (g : ImportGraph) (state : Unvisited × Array Path) (p : Path) :
    Unvisited × Array Path :=
  if state.1.contains p.parts then finish g (state.1.erase p.parts) state.2 [g.frame p]
  else state

/-- All documents, each after its imports where no cycle prevents it. -/
def dependencyOrder (g : ImportGraph) : List Path :=
  (g.order.foldl (finishFrom g) (g.unvisited, #[])).2.toList

end SolidityBuild.ImportGraph
