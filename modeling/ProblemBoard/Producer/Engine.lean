import ProblemBoard.FileSystem.Basic
import ProblemBoard.Path.Label
import ProblemBoard.Producer.Basic
import ProblemBoard.Text.Lines
import ProblemBoard.Text.Split

/-!
# Engines

The programs behind the producers.  The copy of an engine that belongs to the workspace
wins over an installed one: the directories of the workspace and above it are searched,
nearest first, then the search path of the user.

The list of directories is a text that separates them by colons.  A name with a separator
in it is looked up from the workspace root instead.
-/

namespace ProblemBoard

/-- How a program ended. -/
inductive ExitStatus where
  /-- By itself, with a code. -/
  | exited (code : Nat)
  /-- By a signal. -/
  | killed (signal : Nat)
  deriving DecidableEq, Repr

namespace ExitStatus

/-- The names of signals, from number one. -/
def signalNames : List String :=
  ["SIGHUP", "SIGINT", "SIGQUIT", "SIGILL", "SIGTRAP", "SIGABRT", "SIGBUS", "SIGFPE", "SIGKILL",
   "SIGUSR1", "SIGSEGV", "SIGUSR2", "SIGPIPE", "SIGALRM", "SIGTERM"]

def message : ExitStatus → String
  | exited code => "exit status: " ++ toString code
  | killed signal =>
      "signal: " ++ toString signal ++
        match signalNames[signal - 1]? with
        | some name => " (" ++ name ++ ")"
        | none => ""

def isSuccess (s : ExitStatus) : Bool := s = exited 0

end ExitStatus

/-- One run of a program. -/
structure EngineCall where
  program : Path
  args : List String
  directory : Path
  /-- The variables that are set for it. -/
  environment : List (String × String)
  deriving DecidableEq, Repr

/-- What a program left behind. -/
structure EngineOutput where
  status : ExitStatus
  stdout : String
  stderr : String
  deriving DecidableEq, Repr

namespace EngineOutput

/-- What a program left behind, from the bytes it wrote. -/
def ofBytes (status : ExitStatus) (stdout stderr : List UInt8) : EngineOutput :=
  ⟨status, Text.Utf8.decodeLossy stdout, Text.Utf8.decodeLossy stderr⟩

/-- The last few lines of the complaints. -/
def stderrTail (o : EngineOutput) : String := Text.lastLines 8 o.stderr

/-- The end of a program that did not do its work, in words. -/
def exitMessage (o : EngineOutput) (engine : String) : String :=
  engine ++ " exited with " ++ o.status.message ++ ": " ++ o.stderrTail

end EngineOutput

/-- What can run programs. -/
abbrev Launcher := EngineCall → Except AccessError EngineOutput

/-- What a producer did: the engines it looked for, the call that was made, and the
outcome. -/
structure EngineRun where
  /-- The engines it looked for. -/
  asked : List String
  /-- The call of the engine, when it started. -/
  call : Option EngineCall
  result : Except Failure Findings

namespace Engine

def searchDirectories (list : String) : List Path :=
  (Text.split ':' list.toList).map fun cs => ⟨String.ofList cs⟩

/-- The path a name with separators leads to from a base directory: itself when absolute,
else its components below the directory. -/
def spelledOut (base : Path) (engine : Path) : Path :=
  if engine.isAbsolute then engine
  else (engine.components.filterMap Component.labelText).foldl Path.child base

/-- The first program of a name in some directories, as seen from a base directory. -/
def search (fs : FileSystem) (base : Path) (dirs : List Path) (engine : String) : Option Path :=
  if 1 < (Path.mk engine).components.length then
    some (spelledOut base ⟨engine⟩) |>.filter fs.isProgram
  else (dirs.map fun d => (base.under d).child engine).find? fs.isProgram

/-- Where a directory keeps the programs of its packages. -/
def localPrograms (dir : Path) : Path := (dir.child "node_modules").child ".bin"

/-- The program of an engine for a workspace. -/
def locate (fs : FileSystem) (root cwd : Path) (searchPath : String) (engine : String) :
    Option Path :=
  let nearest := root.ancestors.findSome? fun dir =>
    if fs.isDirectory (localPrograms dir) then
      search fs root (searchDirectories (localPrograms dir).text) engine
    else none
  nearest <|> search fs cwd (searchDirectories searchPath) engine

/-- Why a program did not start, in words. -/
def spawnMessage (call : EngineCall) (e : AccessError) : String :=
  "spawning " ++ call.program.text ++ ": " ++ e.message

/-- Looks for an engine, calls it, and lets `judge` make findings of what it left behind. -/
def run (producer engine : String) (locate : String → Option Path) (launch : Launcher)
    (callOf : Path → EngineCall) (judge : EngineOutput → Except Failure Findings) : EngineRun :=
  match locate engine with
  | none => ⟨[engine], none, .error (.engineNotFound producer engine)⟩
  | some program =>
      let call := callOf program
      match launch call with
      | .error e => ⟨[engine], none, .error (.invocationFailed producer (spawnMessage call e))⟩
      | .ok output => ⟨[engine], some call, judge output⟩

end Engine

end ProblemBoard
