import ProblemBoard.Finding.CompilerText
import ProblemBoard.Producer.Engine

/-!
# The type-check producer

The type checker runs over the whole program and writes one finding a line.  It ends with
one or two when it reports something, so then there must be something; after any other bad
end what was understood is kept.
-/

namespace ProblemBoard.TypeCheck

def engine (r : Request) : String := if r.componentChecker then "vue-tsc" else "tsc"

def args (r : Request) : List String :=
  ["--noEmit", "--pretty", "false"] ++
    match r.config with
    | some p => ["-p", p.text]
    | none => []

/-- The first few lines of an output that are not blank, or its complaints when there are
none. -/
def firstLines (o : EngineOutput) : String :=
  let head := ((Text.lines o.stdout).filter fun l => !Text.allBlank l.toList).take 3
  if head.isEmpty then o.stderrTail else "\n".intercalate head

/-- What is made of what the type checker left behind. -/
def judge (engine : String) (o : EngineOutput) : Except Failure Findings :=
  let found := (CompilerText.read o.stdout).1
  if o.status.isSuccess || 0 < found.count then .ok found
  else if o.status = .exited 1 || o.status = .exited 2 then
    .error (.outputUnparseable typeCheckName (firstLines o))
  else .error (.invocationFailed typeCheckName (o.exitMessage engine))

def run (locate : String → Option Path) (launch : Launcher) (r : Request) : EngineRun :=
  Engine.run typeCheckName (engine r) locate launch
    (fun program => ⟨program, args r, r.root, []⟩) (judge (engine r))

end ProblemBoard.TypeCheck
