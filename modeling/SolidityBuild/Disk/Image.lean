import SolidityBuild.Disk.Basic
import SolidityBuild.Json.Reader
import SolidityBuild.Json.Record
import SolidityBuild.Path.Normal

/-! # Disk images: a disk written as JSON

    An image is a record with the current directory, the texts of files, the targets of
    links, empty directories, and what programs print. Paths are seen from the current
    directory, and the directories above them are made.
-/

namespace SolidityBuild

namespace Disk

/-- The members of a field that holds an object; a missing field holds none. -/
def imageMembers? : Option Json → Option (List (String × Json))
  | none => some []
  | some (.object members) => members.mapM fun (name, j) => name.text?.map fun name => (name, j)
  | some _ => none

/-- The texts of a field that holds an array; a missing field holds none. -/
def imageTexts? : Option Json → Option (List String)
  | none => some []
  | some (.array items) => items.mapM fun j => Json.text? (some j)
  | some _ => none

/-- Decodes what a program prints and its exit code. -/
def program? (j : Json) : Option Program := do
  match ← j.fields? ["stdout", "stderr", "exit"] false with
  | [stdout, stderr, exit] =>
    let stdout ← Json.text? stdout
    let stderr ← Json.text? stderr
    let exit ← Json.int64? exit
    pure { stdout := stdout.toUTF8, stderr := stderr.toUTF8, exitCode := exit.toNat }
  | _ => none

/-- The address that a current directory is spelled with. -/
def cwdAddress (p : Path) : Address :=
  (Path.normalParts p.parts).filterMap fun
    | .name segment => some segment
    | _ => none

/-- Decodes an image. -/
def ofImage? (j : Json) : Option Disk := do
  match ← j.fields? ["cwd", "files", "links", "directories", "programs"] true with
  | [cwd, files, links, directories, programs] =>
    let cwd ← Json.text? cwd
    let files ← imageMembers? files
    let links ← imageMembers? links
    let directories ← imageTexts? directories
    let programs ← imageMembers? programs
    let start := { (empty.makeDirAll ⟨cwd⟩).2 with cwd := cwdAddress ⟨cwd⟩ }
    let withDirectories := directories.foldl (fun d p => (d.makeDirAll ⟨p⟩).2) start
    let withFiles ← files.foldlM (fun d (p, j) => do
      pure (d.plant ⟨p⟩ (.file (← Json.text? (some j)).toUTF8 none))) withDirectories
    let withPrograms ← programs.foldlM (fun d (p, j) => do
      pure (d.plant ⟨p⟩ (.file ByteArray.empty (some (← program? j))))) withFiles
    links.foldlM (fun d (p, j) => do
      pure (d.plant ⟨p⟩ (.link (← Json.text? (some j))))) withPrograms
  | _ => none

end Disk

end SolidityBuild
