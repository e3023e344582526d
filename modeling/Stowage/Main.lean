import Stowage.Command.Run
import Stowage.Disk.Manifest

set_option autoImplicit false

namespace Stowage.Program

def home : Location := ["project"]

def clock : Instant := ⟨1735732800, 0⟩

def stamp : String := "20250101_120000"

def noTools : Toolbox := fun _ => none

def malformed : String := "Error: the description of the disk is malformed\n"

def changeLines (before after : Disk) : List String :=
  let listing := Disk.Manifest.listing after
  if listing = Disk.Manifest.listing before then [] else "" :: listing

def outcome (description : String) (arguments : List String) : Nat × String × String :=
  match Disk.Manifest.read home clock description with
  | none => (1, "", malformed)
  | some disk =>
    let exit := Surroundings.runLine ⟨disk, noTools, stamp⟩ arguments
    (exit.code, exit.out ++ Surroundings.joinLines (changeLines disk exit.disk), exit.err)

end Stowage.Program

def main (arguments : List String) : IO UInt32 := do
  let description <- (<- IO.getStdin).readToEnd
  let (code, out, err) := Stowage.Program.outcome description arguments
  (<- IO.getStderr).putStr err
  (<- IO.getStdout).putStr out
  return UInt32.ofNat code
