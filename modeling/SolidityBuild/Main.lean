import SolidityBuild.CommandLine.Run
import SolidityBuild.Disk.Image

/-! # The command line on a disk image

    The image of the disk is read from standard input, so that a run depends on nothing
    else; the arguments say what to do with it.
-/

/-- Runs the command line on the image of a disk. -/
def main (args : List String) : IO UInt32 := do
  let image ← (← IO.getStdin).readToEnd
  match (SolidityBuild.Json.ofText? image).bind SolidityBuild.Disk.ofImage? with
  | none =>
    IO.eprintln "Error: standard input holds no disk image"
    return 1
  | some disk =>
    let exit := SolidityBuild.CommandLine.run args {} disk
    IO.print exit.stdout
    IO.eprint exit.stderr
    return UInt32.ofNat exit.code
