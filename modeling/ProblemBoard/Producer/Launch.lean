import ProblemBoard.FileSystem.Image
import ProblemBoard.Producer.Engine

/-!
# Launching programs from an image

What happens when a program of an image is started.  The directory it is to run in must be
there, and the program must be a file that may be run.  What an installed program leaves
behind is known beforehand; a script of which nothing is known does nothing.
-/

namespace ProblemBoard.Image

/-- A program of which it is known what it leaves behind. -/
structure Installed where
  location : Location
  output : EngineOutput

def launch (m : Image) (cwd : Location) (programs : List Installed) : Launcher := fun call => do
  match ← m.entryAt cwd call.directory with
  | .file _ _ => throw .notDirectory
  | .directory =>
      let l ← m.locate cwd call.program
      match m.get? l with
      | some (.file content true) =>
          match programs.find? (·.location = l) with
          | some p => return p.output
          | none =>
              if (← content).take 2 = [0x23, 0x21] then return ⟨.exited 0, "", ""⟩
              else throw .notProgram
      | _ => throw .denied

end ProblemBoard.Image
