import SolidityBuild.Text.Split

/-! # Paths: spelling and parts

    A path is kept as it was spelled, because messages show the spelling. What it means is
    its list of parts: repeated slashes and inner `.` segments carry no meaning. Two
    spellings of one path have the same parts.
-/

namespace SolidityBuild

/-- A path as it is spelled, with `/` between segments. -/
structure Path where
  text : String
deriving DecidableEq, Hashable, Inhabited

namespace Path

/-- A part of a path. `root` and `here` only ever come first. -/
inductive Part where
  /-- the leading slash of an absolute path -/
  | root
  /-- the leading `.` of a relative path -/
  | here
  /-- a `..` segment -/
  | up
  /-- any other segment -/
  | name (segment : String)
deriving DecidableEq, Hashable, Inhabited

/-- The part that a segment stands for inside a path; an empty one and `.` stand for none. -/
def Part.ofSegment? : List Char → Option Part
  | [] => none
  | ['.'] => none
  | ['.', '.'] => some .up
  | segment => some (.name (String.ofList segment))

/-- How a part is spelled as a segment; the root is an empty one before the first slash. -/
def Part.segment : Part → List Char
  | root => []
  | here => ['.']
  | up => ['.', '.']
  | name segment => segment.toList

/-! ## Parts -/

/-- Whether a spelling starts at the root. -/
def isAbsolute (p : Path) : Bool :=
  p.text.toList.head? = some '/'

/-- The segments of a spelling, empty ones included. -/
def segments (p : Path) : List (List Char) :=
  Text.pieces '/' p.text.toList

/-- The part that only the start of a spelling can give. -/
def lead (p : Path) : List Part :=
  match p.text.toList with
  | '/' :: _ => [.root]
  | ['.'] => [.here]
  | '.' :: '/' :: _ => [.here]
  | _ => []

/-- The parts of a path. -/
def parts (p : Path) : List Part :=
  p.lead ++ p.segments.filterMap Part.ofSegment?

/-- Whether two spellings name the same path. -/
def same (p q : Path) : Bool :=
  p.parts = q.parts

/-- The plain spelling of a list of parts. -/
def ofParts : List Part → Path
  | [.root] => ⟨"/"⟩
  | parts => ⟨String.ofList (Text.joinWith ['/'] (parts.map Part.segment))⟩

/-- The path that leads from the root through some names. -/
def ofNames (names : List String) : Path :=
  ofParts (.root :: names.map .name)

/-! ## Joining and taking apart -/

/-- `child` as seen from `base`: an absolute `child` stands alone, any other is appended
    after a slash. -/
def join (base child : Path) : Path :=
  if child.isAbsolute then child
  else if base.text.toList.getLast?.all (· = '/') then ⟨base.text ++ child.text⟩
  else ⟨base.text ++ "/" ++ child.text⟩

/-- `join` with a spelling. -/
def joinText (base : Path) (child : String) : Path :=
  base.join ⟨child⟩

/-- Whether a segment stands for no part. -/
def isTrivial (segment : List Char) : Bool :=
  segment.isEmpty || segment = ['.']

/-- The segments after the leading slash or the leading `.`, without the trivial ones at the
    end. -/
def body (p : Path) : List (List Char) :=
  let segments := if p.lead.isEmpty then p.segments else p.segments.drop 1
  (segments.reverse.dropWhile isTrivial).reverse

/-- The spelling of a path that starts like `p` and goes on with `segments`. -/
def respell (p : Path) (segments : List (List Char)) : Path :=
  let rest := String.ofList (Text.joinWith ['/'] segments)
  match p.lead with
  | [.root] => ⟨"/" ++ rest⟩
  | [.here] => if segments.isEmpty then ⟨"."⟩ else ⟨"./" ++ rest⟩
  | _ => ⟨rest⟩

/-- The path without its last part, spelled as before; none for the root and for the empty
    path. -/
def parent? (p : Path) : Option Path :=
  match p.body with
  | [] => if p.lead = [.here] then some ⟨""⟩ else none
  | segments => some (p.respell (segments.dropLast.reverse.dropWhile isTrivial).reverse)

/-- The path and those above it, the nearest first. -/
def ancestors (p : Path) : List Path :=
  go p.parts.length p
where
  /-- The same for a path of at most `count` parts. -/
  go : Nat → Path → List Path
    | 0, p => [p]
    | count + 1, p => p :: (p.parent?.map (go count)).getD []

/-- The last part, when it is a name. -/
def fileName? (p : Path) : Option String :=
  match p.parts.getLast? with
  | some (.name segment) => some segment
  | _ => none

/-- What follows the last dot of the file name, unless that dot comes first. -/
def extension? (p : Path) : Option String := do
  let name ← p.fileName?
  let reversed := name.toList.reverse
  let after := reversed.takeWhile (· ≠ '.')
  match reversed.drop after.length with
  | [] | [_] => none
  | _ => some (String.ofList after.reverse)

/-- The segments after the first `count` that stand for a part. -/
def dropNamed : Nat → List (List Char) → List (List Char)
  | 0, segments => segments
  | _, [] => []
  | count + 1, segment :: rest =>
    if isTrivial segment then dropNamed (count + 1) rest else dropNamed count rest

/-- How `p` is spelled after the parts of `base`, when those come first. -/
def strip? (base p : Path) : Option Path :=
  if base.parts.isEmpty then some (p.respell p.body)
  else if base.parts.isPrefixOf p.parts then
    let rest := dropNamed (base.parts.length - p.lead.length) p.body
    some ⟨String.ofList (Text.joinWith ['/'] (rest.dropWhile isTrivial))⟩
  else none

/-- The spelling with forward slashes only, as the compiler gets it. -/
def forward (p : Path) : String :=
  p.text.map fun c => if c = '\\' then '/' else c

end Path

end SolidityBuild
