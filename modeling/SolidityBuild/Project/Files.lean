import SolidityBuild.Manifest
import SolidityBuild.Notice
import SolidityBuild.Remapping
import SolidityBuild.Settings
import SolidityBuild.SourceReader

/-! # The files that describe a project

    A project's root may hold settings, a manifest and a list of remappings. Each of the
    files may be missing; one that is there has to be readable.
-/

namespace SolidityBuild

namespace Manifest

/-- Reads the manifest in a file. -/
def ofFile (d : Disk) (p : Path) : Except Fault Manifest :=
  match d.readText p with
  | .error e => .error (.unreadable e)
  | .ok text => ofText text

/-- Reads the manifest of the package in a directory, if it has one. -/
def load (d : Disk) (directory : Path) : Except Fault (Option Manifest) :=
  let p := directory.joinText fileName
  if d.isFile p then (ofFile d p).map some else .ok none

end Manifest

namespace Settings

/-- Reads the settings in a directory; without a file the defaults stand. -/
def load (d : Disk) (directory : Path) : Except Fault Settings :=
  let p := directory.joinText fileName
  if d.isFile p then
    match d.readText p with
    | .error e => .error (.unreadable e)
    | .ok text => ofText text
  else .ok {}

/-- What is told when settings are read. -/
def loadNotices (d : Disk) (directory : Path) : List Notice :=
  if d.isFile (directory.joinText fileName) then []
  else [.debug ("no " ++ fileName ++ " in " ++ directory.text ++ ", using defaults")]

end Settings

namespace Remapping

/-- Why a file's remappings are refused. -/
inductive FileFault where
  | refused (f : Fault)
  | unreadable (p : Path) (e : ReadError)
deriving DecidableEq

/-- The message for a file's refused remappings. -/
def FileFault.message : FileFault → String
  | refused f => f.message
  | unreadable p e => "Failed to read " ++ p.text ++ ": " ++ e.message

/-- Reads the remappings in a directory; without a file there are none. -/
def load (d : Disk) (directory : Path) : Except FileFault (List Remapping) :=
  let p := directory.joinText fileName
  if d.isFile p then
    match d.readText p with
    | .error e => .error (.unreadable p e)
    | .ok text => (parseList text).mapError .refused
  else .ok []

end Remapping

/-- The files that make a directory the root of a project. -/
def markerNames : List String :=
  [Settings.fileName, Manifest.fileName, Remapping.fileName]

/-- The nearest directory at or above a path that holds one of the marker files. -/
def Disk.projectRoot? (d : Disk) (start : Path) : Option Path :=
  start.ancestors.find? fun p => markerNames.any fun name => d.exists? (p.joinText name)

end SolidityBuild
