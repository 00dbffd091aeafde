import ProblemBoard.Path.Map
import ProblemBoard.Problem.Range

/-!
# Findings

A finding is what a tool reports, before it is made a problem: positions count from zero or
from one, the rule may be a number or a name, and the tool may name a source of its own.
The findings of one run are those of each file, and those of the program as a whole.
-/

namespace ProblemBoard

/-- From what a tool counts lines and columns. -/
inductive Base where
  /-- The first one is number zero. -/
  | zero
  /-- The first one is number one. -/
  | one
  deriving DecidableEq, Repr

/-- How bad a tool says a finding is. -/
inductive Grade where
  | error
  | warning
  | information
  | hint
  deriving DecidableEq, Repr

inductive RuleCode where
  /-- An error number. -/
  | number (n : Nat)
  /-- The name of a rule. -/
  | text (s : String)
  deriving DecidableEq, Repr

/-- What a tool reports. -/
structure Finding where
  /-- Where it starts, counted from the base. -/
  start : Position
  /-- Where it ends, counted from the base, if the tool says so. -/
  stop : Option Position
  /-- From what positions are counted. -/
  base : Base
  grade : Grade
  message : String
  code : Option RuleCode
  /-- The source, when the tool names one. -/
  source : Option String
  deriving DecidableEq, Repr

/-- The findings of one run. -/
structure Findings where
  /-- Those of each file. -/
  files : PathMap (List Finding)
  /-- Those of the program as a whole. -/
  global : List Finding
  deriving DecidableEq, Repr

namespace Findings

def empty : Findings := ⟨.empty, []⟩

/-- The findings with more at the end of those of a file. -/
def append (f : Findings) (p : Path) (more : List Finding) : Findings :=
  { f with files := f.files.alter p fun old => old.getD [] ++ more }

/-- The findings with one more for the program as a whole. -/
def addGlobal (f : Findings) (x : Finding) : Findings := { f with global := f.global ++ [x] }

def fileCount (f : Findings) : Nat := (f.files.entries.flatMap (·.2)).length

def count (f : Findings) : Nat := f.fileCount + f.global.length

end Findings

end ProblemBoard
