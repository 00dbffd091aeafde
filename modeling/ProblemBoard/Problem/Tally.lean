import ProblemBoard.Problem.Basic

/-!
# Tallies

How many problems there are of each severity, and the texts made of these numbers.
-/

namespace ProblemBoard

/-- The number of problems of each severity. -/
structure Tally where
  errors : Nat
  warnings : Nat
  infos : Nat
  hints : Nat
  deriving DecidableEq, Repr

namespace Tally

def ofSeverities (vs : List Severity) : Tally :=
  ⟨vs.count .error, vs.count .warning, vs.count .info, vs.count .hint⟩

def ofProblems (ps : List Problem) : Tally := ofSeverities (ps.map Problem.severity)

def total (t : Tally) : Nat := t.errors + t.warnings + t.infos + t.hints

/-- Errors and warnings as a short text, empty when there is nothing at all. -/
def status (t : Tally) : String :=
  if t.total = 0 then "" else "E:" ++ toString t.errors ++ " W:" ++ toString t.warnings

/-- The number of problems in words. -/
def summary (t : Tally) : String :=
  match t.total with
  | 0 => "No problems"
  | 1 => "1 problem (" ++ t.status ++ ")"
  | n => toString n ++ " problems (" ++ t.status ++ ")"

end Tally

end ProblemBoard
