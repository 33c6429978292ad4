import SolidityBuild.Disk.Basic

/-! # Launching: the program that a name leads to

    A name with a slash is a path seen from the directory that the program is to run in; no
    other name leads to a program, because nothing is installed. A program is launched with
    arguments and an input, answers what it always answers, and leaves the disk as it is.
-/

namespace SolidityBuild

/-- One run of a program: what it was given and where it ran. -/
structure Invocation where
  arguments : List String
  cwd : Path
  input : String
deriving DecidableEq, Inhabited

/-- Why a program cannot be launched. -/
inductive LaunchError where
  | system (e : SystemError)
  /-- a name holds a zero byte -/
  | zeroByte
deriving DecidableEq, Inhabited

/-- The text for a failed launch. -/
def LaunchError.message : LaunchError → String
  | system e => e.message
  | zeroByte => "nul byte found in provided data"

namespace Disk

/-- Whether a text holds a zero byte. -/
def hasZeroByte (s : String) : Bool :=
  s.toList.contains '\x00'

/-- The program at a path. -/
def programAt (d : Disk) (p : Path) : Except SystemError Program := do
  match ← d.locate p with
  | .vacant .. => .error .notFound
  | .directory _ => .error .permissionDenied
  | .file address =>
    match d.tree.get? address with
    | some (.file _ (some program)) => .ok program
    | _ => .error .permissionDenied

/-- The program that a name leads to from a directory, and that directory's real path. -/
def launch (d : Disk) (name : String) (cwd : Path) : Except LaunchError (Program × Path) :=
  if hasZeroByte name || hasZeroByte cwd.text then .error .zeroByte
  else match d.locate cwd with
    | .error e => .error (.system e)
    | .ok (.vacant ..) => .error (.system .notFound)
    | .ok (.file _) => .error (.system .notDirectory)
    | .ok (.directory address) =>
      if name.toList.contains '/' then
        match { d with cwd := address }.programAt ⟨name⟩ with
        | .error e => .error (.system e)
        | .ok program => .ok (program, Path.ofNames address)
      else .error (.system .notFound)

end Disk

end SolidityBuild
