import SolidityBuild.ImportGraph.Basic

/-! # Import cycles: one way from a document back to itself

    The same depth-first walk finds a cycle when it meets a document that is on the way.
-/

namespace SolidityBuild.ImportGraph

/-- The way from a document on the stack to its top, and back to the document; none when the
    document is not on the stack. -/
def cycleAt? (stack : List Frame) (p : Path) : Option (List Path) :=
  match stack.reverse.dropWhile fun f => !f.path.same p with
  | [] => none
  | way => some (way.map Frame.path ++ [p])

/-- Goes on with a walk until no frame is left or a cycle is met; `grey` holds the documents
    on the way. Answers the documents that the walk has not come to, or stops at a document
    on the way, with the cycle if the stack shows one. -/
def seek (g : ImportGraph) (white grey : Unvisited) :
    List Frame → Except (Option (List Path)) Unvisited
  | [] => .ok white
  | ⟨path, []⟩ :: stack => seek g white (grey.erase path.parts) stack
  | ⟨path, dep :: left⟩ :: stack =>
    if grey.contains dep.parts then .error (cycleAt? (⟨path, left⟩ :: stack) dep)
    else if _h : white.contains dep.parts then
      seek g (white.erase dep.parts) (grey.insert dep.parts)
        (g.frame dep :: ⟨path, left⟩ :: stack)
    else seek g white grey (⟨path, left⟩ :: stack)
termination_by stack => (white.size, weight stack)
decreasing_by
  · exact Prod.Lex.right _ (by simp [weight])
  · exact Prod.Lex.left _ _ (size_erase_lt _h)
  · exact Prod.Lex.right _ (by simp [weight])

/-- Looks for a cycle from one document, unless a walk came to it before. -/
def seekFrom (g : ImportGraph) (white : Unvisited) (p : Path) :
    Except (Option (List Path)) Unvisited :=
  if white.contains p.parts then
    seek g (white.erase p.parts) (Std.HashSet.ofList [p.parts]) [g.frame p]
  else .ok white

/-- One cycle, if there is any; it starts and ends with the same document. -/
def findCycle (g : ImportGraph) : Option (List Path) :=
  match g.order.toList.foldlM (seekFrom g) g.unvisited with
  | .ok _ => none
  | .error answer => answer

end SolidityBuild.ImportGraph
