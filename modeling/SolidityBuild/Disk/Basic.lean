import SolidityBuild.FileTree.Walk
import SolidityBuild.Text.Blank

/-! # Disks: a file tree seen from a current directory

    Questions and changes go by paths. A path is walked from the root or from the current
    directory, through every link; only `entry` stops before a link in the last place.
-/

namespace SolidityBuild

/-- A file tree and the directory in it that relative paths start from. -/
structure Disk where
  tree : FileTree
  cwd : Address
deriving Inhabited

namespace Disk

/-- A disk with nothing on it, seen from its root. -/
def empty : Disk :=
  { tree := .dir [], cwd := [] }

/-- The bytes that a path may have. -/
def pathLimit : Nat := 4095

/-! ## Walking -/

/-- Refuses a spelling that no walk can start with. -/
def check (p : Path) : Except SystemError Unit :=
  if p.text.isEmpty then .error .notFound
  else if p.text.toList.contains '\x00' then .error .zeroByte
  else if pathLimit < p.text.utf8ByteSize then .error .nameTooLong
  else .ok ()

/-- The directory that a path starts from. -/
def origin (d : Disk) (p : Path) : Address :=
  if p.isAbsolute then [] else d.cwd

/-- Where a path leads. -/
def locate (d : Disk) (p : Path) : Except SystemError FileTree.Place := do
  check p
  d.tree.walk FileTree.linkLimit (d.origin p) (FileTree.steps p)

/-- The directory that a path's last step starts from, and that step; slashes at the end do
    not count. -/
def entry (d : Disk) (p : Path) : Except SystemError (Address × FileTree.Step) := do
  check p
  let segments := Text.dropEndWhile List.isEmpty p.segments
  let before := segments.dropLast.map FileTree.Step.ofSegment ++ [.stay]
  match ← d.tree.walk FileTree.linkLimit (d.origin p) before with
  | .directory address => .ok (address, (segments.getLast?.map FileTree.Step.ofSegment).getD .stay)
  | _ => .error .notDirectory

/-! ## Questions -/

/-- Whether a path leads to a file. -/
def isFile (d : Disk) (p : Path) : Bool :=
  match d.locate p with
  | .ok (.file _) => true
  | _ => false

/-- Whether a path leads to a directory. -/
def isDir (d : Disk) (p : Path) : Bool :=
  match d.locate p with
  | .ok (.directory _) => true
  | _ => false

/-- Whether a path leads to a file or a directory. -/
def exists? (d : Disk) (p : Path) : Bool :=
  d.isFile p || d.isDir p

/-- Whether a path leads to something, or its last name is a link that leads nowhere. -/
def hasEntry (d : Disk) (p : Path) : Bool :=
  d.exists? p ||
    match d.entry p with
    | .ok (address, .enter name) =>
      match d.tree.get? (address ++ [name]) with
      | some (.link _) => p.text.toList.getLast? != some '/'
      | _ => false
    | _ => false

/-- The address of what a path leads to, with the node there. -/
def node (d : Disk) (p : Path) : Except SystemError (Address × FileTree) :=
  match d.locate p with
  | .error e => .error e
  | .ok (.vacant ..) => .error .notFound
  | .ok (.directory address) | .ok (.file address) =>
    match d.tree.get? address with
    | some node => .ok (address, node)
    | none => .error .notFound

/-- The path without links and relative parts to what a path leads to. -/
def realPath (d : Disk) (p : Path) : Except SystemError Path :=
  (d.node p).map fun (address, _) => Path.ofNames address

/-- The bytes of the file that a path leads to. -/
def contents (d : Disk) (p : Path) : Except SystemError ByteArray :=
  match d.locate p with
  | .error e => .error e
  | .ok (.vacant ..) => .error .notFound
  | .ok (.directory _) => .error .isDirectory
  | .ok (.file address) =>
    match d.tree.get? address with
    | some (.file contents _) => .ok contents
    | _ => .error .notFound

/-- The text of the file that a path leads to. -/
def readText (d : Disk) (p : Path) : Except ReadError String :=
  match d.contents p with
  | .error e => .error (.system e)
  | .ok contents =>
    match String.fromUTF8? contents with
    | some text => .ok text
    | none => .error .notText

/-- The names in a directory, in order; none when the path leads to no directory. -/
def list (d : Disk) (p : Path) : List String :=
  match d.node p with
  | .ok (_, node) => node.entries.map Prod.fst
  | .error _ => []

/-! ## Changes

    A change answers the disk that it leaves, also when it fails part of the way. -/

/-- What a change comes to, and the disk after it. -/
abbrev Change := Except SystemError Unit × Disk

/-- The disk with a node put at an address. -/
def put (d : Disk) (address : Address) (node : FileTree) : Disk :=
  { d with tree := d.tree.put node address }

/-- Makes the contents of the file that a path leads to; a missing file is added. -/
def write (d : Disk) (p : Path) (contents : ByteArray) : Change :=
  match d.locate p with
  | .error e => (.error e, d)
  | .ok (.directory _) => (.error .isDirectory, d)
  | .ok (.file address) => (.ok (), d.put address (.file contents none))
  | .ok (.vacant parent name) => (.ok (), d.put (parent ++ [name]) (.file contents none))

/-- Makes a new entry at the last name of a path. -/
def create (d : Disk) (p : Path) (node : FileTree) : Change :=
  match d.entry p with
  | .error e => (.error e, d)
  | .ok (parent, .enter name) =>
    if (d.tree.get? (parent ++ [name])).isSome then (.error .alreadyExists, d)
    else if FileTree.nameLimit < name.utf8ByteSize then (.error .nameTooLong, d)
    else (.ok (), d.put (parent ++ [name]) node)
  | .ok _ => (.error .alreadyExists, d)

/-- Makes an empty directory. -/
def makeDir (d : Disk) (p : Path) : Change :=
  d.create p (.dir [])

/-- A change that fails counts as done where the path leads to a directory anyway. -/
def orDirectory (p : Path) (change : Change) : Change :=
  match change with
  | (.ok (), d) => (.ok (), d)
  | (.error e, d) => (if d.isDir p then .ok () else .error e, d)

/-- Makes the first of some paths a directory, and before it those of the rest, each the
    parent of the one before, that are missing. -/
def makeChain (d : Disk) : List Path → Change
  | [] => (.error .notFound, d)
  | p :: above =>
    if p.text.isEmpty then (.ok (), d)
    else match d.makeDir p with
      | (.error .notFound, _) =>
        match d.makeChain above with
        | (.ok (), d) => orDirectory p (d.makeDir p)
        | failed => failed
      | change => orDirectory p change

/-- Makes a directory with all the directories above it that are missing. -/
def makeDirAll (d : Disk) (p : Path) : Change :=
  d.makeChain p.ancestors

/-- The disk without the last name of a path and all below it. -/
def remove (d : Disk) (p : Path) : Disk :=
  match d.entry p with
  | .ok (parent, .enter name) => { d with tree := d.tree.erase (parent ++ [name]) }
  | _ => d

/-- The disk with a node at a path, in directories made for it. -/
def plant (d : Disk) (p : Path) (node : FileTree) : Disk :=
  let d := match p.parent? with
    | some parent => (d.makeDirAll parent).2
    | none => d
  match d.entry p with
  | .ok (parent, .enter name) => d.put (parent ++ [name]) node
  | _ => d

end Disk

end SolidityBuild
