import SolidityBuild.Path.Basic

/-! # Normal paths: `.` and `..` resolved in the spelling

    A normal path has no `.` part, no `..` after a name, and no `..` at all when it starts
    at the root. Containment compares normal forms part by part.
-/

namespace SolidityBuild.Path

/-- One more part on a stack whose top is the part before it: `..` cancels a name, is lost
    at the root, and is kept otherwise. -/
def settle (stack : List Part) : Part → List Part
  | .up => match stack with
    | .name _ :: below => below
    | .root :: below => .root :: below
    | _ => .up :: stack
  | .here => stack
  | part => part :: stack

/-- The parts that remain when `.` and `..` are resolved. -/
def normalParts (parts : List Part) : List Part :=
  (parts.foldl settle []).reverse

/-- The path with `.` and `..` resolved, in its plain spelling. -/
def normalize (p : Path) : Path :=
  ofParts (normalParts p.parts)

/-- Whether `child` is `parent` or lies below it, once both are normal. -/
def contains (parent child : Path) : Bool :=
  (normalParts parent.parts).isPrefixOf (normalParts child.parts)

/-- Whether some prefix of the parts climbs above the root that they start from. -/
def climbsAbove (parts : List Part) : Bool :=
  go 0 parts
where
  /-- The same from a directory `depth` names below the root. -/
  go (depth : Nat) : List Part → Bool
    | [] => false
    | .up :: rest => depth = 0 || go (depth - 1) rest
    | .name _ :: rest => go (depth + 1) rest
    | _ :: rest => go depth rest

/-- The normal form of `child` seen from `base`; none when that is absolute and climbs above
    the root on the way. -/
def joinWithin? (base child : Path) : Option Path :=
  let joined := base.join child
  if joined.isAbsolute && climbsAbove joined.parts then none else some joined.normalize

end SolidityBuild.Path
