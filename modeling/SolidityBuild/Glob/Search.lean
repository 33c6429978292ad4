import SolidityBuild.Disk.Basic
import SolidityBuild.Glob.Pattern
import SolidityBuild.Notice
import SolidityBuild.Text.Blank

/-! # Searching a disk with globs

    A pattern is split at its slashes and followed segment by segment, from the root or from
    the current directory. Entries of a directory are visited in the order of their names,
    each one before what lies below it. A search drops what its excluding patterns match, as
    seen from its base, and stops at its limit.
-/

namespace SolidityBuild

/-- What a search for files asks for. -/
structure SearchRequest where
  /-- the directory to search -/
  base : Path
  /-- the glob for wanted files, as seen from the base -/
  wanted : String
  /-- globs for files to leave out, matched as seen from the base -/
  excluded : List String
  /-- the number of files to stop at -/
  limit : Nat
deriving DecidableEq, Inhabited

/-- Why a search fails. -/
inductive SearchError where
  | misspelled (e : Glob.Error)
  /-- the search fails for a reason of its own -/
  | failed (message : String)
deriving DecidableEq, Inhabited

/-- The text for a failed search. -/
def SearchError.message : SearchError → String
  | misspelled e => e.message
  | failed message => message

/-- A way to search for files: what it finds, and what is told meanwhile. -/
abbrev FileSearch := SearchRequest → Except SearchError (List Path) × List Notice

namespace Glob

/-- An entry of a directory; the current directory is not spelled out. -/
def entryOf (directory : Path) (name : String) : Path :=
  if directory.same ⟨"."⟩ then ⟨name⟩ else directory.joinText name

/-- Whether a segment is `.` or `..`. -/
def isDots (segment : String) : Bool :=
  segment = "." || segment = ".."

/-- The paths that patterns lead to from a path, one pattern a segment; `fuel` bounds the
    number of segments. With `onlyDirectories?` the last one has to be a directory. -/
def expand (d : Disk) (onlyDirectories? : Bool) : Nat → List Glob → Path → List Path
  | 0, _, _ => []
  | _ + 1, [], _ => []
  | fuel + 1, g :: rest, path =>
    let goOn (rest : List Glob) (next : Path) : List Path :=
      if rest.isEmpty then
        if onlyDirectories? && !d.isDir next then [] else [next]
      else expand d onlyDirectories? fuel rest next
    match g.literal? with
    | some segment =>
      let next := entryOf path segment
      if if isDots segment then d.isDir path else d.hasEntry next then goOn rest next else []
    | none =>
      if d.isDir path then
        let dots := ["..", "."].filter fun segment => g.startsWithDot && g.accepts segment
        dots.flatMap (fun segment => goOn rest (path.joinText segment)) ++
          (d.list path).flatMap fun name =>
            let next := entryOf path name
            if g.isRecursive then
              let rest := rest.dropWhile isRecursive
              let itself := match rest with
                | [] => if d.isDir next then [next] else []
                | h :: more => if h.accepts name then goOn more next else []
              let below := if d.isDir next then expand d onlyDirectories? fuel (g :: rest) next
                else []
              itself ++ below
            else if g.accepts name then goOn rest next else []
      else []

/-- The segments of a pattern, without the empty one after a slash at the end. -/
def segments (pattern : List Char) : List (List Char) :=
  let parts := Text.pieces '/' pattern
  if parts.getLast? = some [] then parts.dropLast else parts

/-- A bound on the segments of the paths that `count` patterns can lead to on a disk: each
    pattern and each link may start a new way down. -/
def reach (d : Disk) (count : Nat) : Nat :=
  (count + FileTree.linkLimit + 2) * (d.tree.height + 2)

/-- The paths that a pattern leads to. -/
def find (d : Disk) (pattern : List Char) : Except Error (List Path) := do
  let _ ← ofChars pattern
  let absolute := pattern.head? = some '/'
  let globs ← (segments (if absolute then pattern.drop 1 else pattern)).mapM ofChars
  let globs := if globs.isEmpty then [⟨[]⟩] else globs
  pure (expand d (pattern.getLast? = some '/') (reach d globs.length) globs
    (if absolute then ⟨"/"⟩ else ⟨"."⟩))

end Glob

namespace Disk

/-- The pattern for the wanted files below a base, whose own name is taken as it is. -/
def searchPattern (r : SearchRequest) : List Char :=
  Glob.escape (Text.dropEndWhile (· = '/') r.base.text.toList) ++ '/' :: r.wanted.toList

/-- Whether one of some patterns matches a path as seen from a base. -/
def isExcluded (base : Path) (excluded : List Glob) (p : Path) : Bool :=
  let seen := (Path.strip? base p).getD p
  excluded.any fun g => g.accepts seen.text

/-- All the files that a request asks for, whatever its limit. -/
def searchAll (d : Disk) (r : SearchRequest) : Except Glob.Error (List Path) := do
  let excluded ← r.excluded.mapM Glob.ofText
  let found ← Glob.find d (searchPattern r)
  pure (found.filter fun p => d.isFile p && !isExcluded r.base excluded p)

/-- Goes through what a search leads to, after it took some files. What is no file or is
    excluded is skipped. The limit counts whenever a file was taken, so not before the first
    one; a search that it stops says so. -/
def takeFiles (d : Disk) (r : SearchRequest) (excluded : List Glob) :
    Array Path → List Path → Array Path × List Notice
  | files, [] => (files, [])
  | files, p :: found =>
    if !d.isFile p || isExcluded r.base excluded p then takeFiles d r excluded files found
    else
      let files := files.push p
      if r.limit ≤ files.size then
        (files, [.warn ("stopped after " ++ toString r.limit ++ " files under " ++ r.base.text)])
      else takeFiles d r excluded files found

/-- Searches for files. -/
def search (d : Disk) : FileSearch := fun r =>
  let taken : Except Glob.Error (Array Path × List Notice) := do
    let excluded ← r.excluded.mapM Glob.ofText
    let found ← Glob.find d (searchPattern r)
    pure (takeFiles d r excluded #[] found)
  match taken with
  | .error e => (.error (.misspelled e), [])
  | .ok (files, notices) => (.ok files.toList, notices)

end Disk

end SolidityBuild
