import SolidityBuild.Project.Basic
import SolidityBuild.Project.Files

/-! # Loading a project from a disk

    The settings' remappings come before those of the root's file. Every directory in the
    dependency directory is a package; a package whose manifest is refused counts as one
    without a manifest.
-/

namespace SolidityBuild

namespace Project

/-- Why a project cannot be loaded. -/
inductive Fault where
  | manifest (f : Manifest.Fault)
  | remapping (f : Remapping.FileFault)
deriving DecidableEq

/-- The message for a project that cannot be loaded. -/
def Fault.message : Fault → String
  | manifest f => "Project manifest error: " ++ f.message
  | remapping f => f.message

/-- The root at a path: its real path, or its normal form when nothing is there. -/
def rootAt (d : Disk) (p : Path) : Path :=
  match d.realPath p with
  | .ok real => real
  | .error _ => p.normalize

/-- A directory, where the empty one is none. -/
def directory? (directory : Option String) : Option String :=
  directory.filter fun d => !d.isEmpty

/-! ## Packages -/

/-- The package in a directory, and what is told of it. -/
def packageAt (d : Disk) (name : String) (p : Path) : Package × List Notice :=
  let path := match d.realPath p with
    | .ok real => real
    | .error _ => p
  match Manifest.load d path with
  | .ok manifest => (.ofPath name path (manifest.getD {}), [])
  | .error f =>
    (.ofPath name path {},
      [.warn ("ignoring manifest of package '" ++ name ++ "': " ++ f.message)])

/-- The packages in a directory, in the order of their names. -/
def packagesIn (d : Disk) (directory : Path) : List (Package × List Notice) :=
  if d.isDir directory then
    ((d.list directory).filter fun name => d.isDir (directory.joinText name)).map
      fun name => packageAt d name (directory.joinText name)
  else []

/-! ## Loading -/

/-- The remappings of the settings, then those of the root's file. -/
def loadRemappings (d : Disk) (root : Path) (settings : Settings) :
    Except Remapping.FileFault (List Remapping) := do
  let configured ← (settings.remappings.mapM Remapping.parse).mapError .refused
  let listed ← Remapping.load d root
  pure (configured ++ listed)

/-- What is told once a project is loaded. -/
def loadedText (p : Project) : String :=
  "initialised project at " ++ p.root.text ++ " (" ++ toString p.remappings.length ++
    " remappings, " ++ toString p.packages.length ++ " packages)"

/-- Loads the project at a path, and says what is told meanwhile. -/
def load (d : Disk) (path : Path) (settings : Settings) :
    Except Fault Project × List Notice :=
  let root := rootAt d path
  let bare : Project :=
    { root, packagesDir := settings.packagesDir?, contractsDir := settings.contractsDir? }
  match Manifest.load d root with
  | .error f => (.error (.manifest f), [])
  | .ok manifest =>
    match loadRemappings d root settings with
    | .error f => (.error (.remapping f), [])
    | .ok remappings =>
      let found := (bare.packagesPath?.map (packagesIn d)).getD []
      let project := { bare with
        manifest := manifest.getD {}, remappings, packages := found.map Prod.fst }
      (.ok project, found.flatMap Prod.snd ++ [.debug project.loadedText])

end Project

end SolidityBuild
