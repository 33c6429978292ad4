import SolidityBuild.FileTree.Basic
import SolidityBuild.ReadError

/-! # Walking a file tree: what a path leads to

    A walk goes through a path's segments from a directory, through the links that it meets,
    and ends at a directory, at a file, or at a name that a directory does not have yet.
-/

namespace SolidityBuild

namespace FileTree

/-- What one segment of a path does. -/
inductive Step where
  /-- an empty segment or `.`, which only asks for a directory -/
  | stay
  | up
  | enter (name : String)
deriving DecidableEq, Inhabited

/-- The step of a segment. -/
def Step.ofSegment : List Char → Step
  | [] => .stay
  | ['.'] => .stay
  | ['.', '.'] => .up
  | segment => .enter (String.ofList segment)

/-- The steps of a path. -/
def steps (p : Path) : List Step :=
  p.segments.map Step.ofSegment

/-- Where a walk ends. -/
inductive Place where
  | directory (address : Address)
  | file (address : Address)
  /-- a name that the directory at `parent` does not have -/
  | vacant (parent : Address) (name : String)
deriving DecidableEq, Inhabited

/-- The bytes that a name may have. -/
def nameLimit : Nat := 255

/-- The links that a walk may go through. -/
def linkLimit : Nat := 40

/-- A walk from the directory at `start`, where `follow` goes on after a link. -/
def walkFrom (t : FileTree) (follow : Address → List Step → Except SystemError Place)
    (start : Address) : List Step → Except SystemError Place
  | [] => .ok (.directory start)
  | .stay :: rest => walkFrom t follow start rest
  | .up :: rest => walkFrom t follow start.dropLast rest
  | .enter name :: rest =>
    match t.get? (start ++ [name]) with
    | none =>
      if nameLimit < name.utf8ByteSize then .error .nameTooLong
      else if rest.isEmpty then .ok (.vacant start name)
      else .error .notFound
    | some (.dir _) => walkFrom t follow (start ++ [name]) rest
    | some (.file ..) =>
      if rest.isEmpty then .ok (.file (start ++ [name])) else .error .notDirectory
    | some (.link target) =>
      let path : Path := ⟨target⟩
      follow (if path.isAbsolute then [] else start) (steps path ++ rest)

/-- A walk through at most `links` links. -/
def walk (t : FileTree) : Nat → Address → List Step → Except SystemError Place
  | 0 => walkFrom t fun _ _ => .error .tooManyLinks
  | links + 1 => walkFrom t (walk t links)

end FileTree

end SolidityBuild
