import ProblemBoard.CommandLine.Snapshot
import ProblemBoard.CommandLine.Transcript

/-!
# The program

Reads the snapshot of a host from the standard input and runs the program in it with the
given arguments.
-/

open ProblemBoard.CommandLine

/-- Everything that is left on a stream, behind what was read before. -/
partial def readRest (input : IO.FS.Stream) (before : String) : IO String := do
  let line ← input.getLine
  if line.isEmpty then return before else readRest input (before ++ line)

/-- Prints what a run leaves behind, and ends as it ends. -/
def play (t : Transcript) : IO UInt32 := do
  (← IO.getStdout).putStr t.output
  (← IO.getStderr).putStr t.notes
  return t.status.toUInt32

def main (args : List String) : IO UInt32 := do
  match Snapshot.host? (← readRest (← IO.getStdin) "") with
  | .ok host => play (Transcript.ofArguments host args)
  | .error _ =>
      (← IO.getStderr).putStr (line "error: the standard input holds no snapshot of a host")
      return 2
