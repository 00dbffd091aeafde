import ProblemBoard.Path.Basic
import ProblemBoard.Problem.Range
import ProblemBoard.Problem.Severity

/-!
# Problems

A problem is one finding as it is shown: in which file, where in it, how bad, what is
wrong, who says so and under which rule.  On output lines and columns count from one.
-/

namespace ProblemBoard

/-- One finding as it is shown. -/
structure Problem where
  file : Path
  /-- The range inside the file. -/
  range : TextRange
  severity : Severity
  message : String
  /-- Who says so. -/
  source : String
  /-- The rule or error number, if any. -/
  code : Option String
  deriving DecidableEq, Repr

namespace Problem

/-- The source, with the code behind a slash when there is one. -/
def origin (p : Problem) : String :=
  match p.code with
  | some code => p.source ++ "/" ++ code
  | none => p.source

/-- Where the problem starts, counted from one, as `line:column`.  The sums have 32 bits, and
behind the greatest number comes zero. -/
def place (p : Problem) : String :=
  toString (p.range.start.line + 1) ++ ":" ++ toString (p.range.start.column + 1)

/-- Where the problem starts if overflow is an error: `none` when a sum needs more than 32 bits. -/
def place? (p : Problem) : Option String := do
  let line ← oneBased? p.range.start.line
  let column ← oneBased? p.range.start.column
  return toString line ++ ":" ++ toString column

/-- The numbers of the start have 32 bits when they are counted from one. -/
def OneBased (p : Problem) : Prop :=
  p.range.start.line.toNat + 1 < UInt32.size ∧ p.range.start.column.toNat + 1 < UInt32.size

instance (p : Problem) : Decidable p.OneBased := inferInstanceAs (Decidable (_ ∧ _))

theorem place?_eq (p : Problem) : p.place? = if p.OneBased then some p.place else none := by
  unfold place? oneBased? OneBased place
  by_cases hline : p.range.start.line.toNat + 1 < UInt32.size
  · by_cases hcolumn : p.range.start.column.toNat + 1 < UInt32.size
    · simp [hline, hcolumn]
    · simp [hline, hcolumn]
  · simp [hline]

/-- The problem on one line, under the name its file goes by. -/
def display (p : Problem) (fileName : String) : String :=
  fileName ++ ":" ++ p.place ++ ": " ++ p.severity.label ++ ": [" ++ p.origin ++ "] " ++ p.message

/-- What stands for an empty source. -/
def unknownSource : String := "unknown"

/-- The source that groups go by. -/
def effectiveSource (p : Problem) : String :=
  if p.source.isEmpty then unknownSource else p.source

/-- The code that groups go by: an empty one counts as none. -/
def effectiveCode (p : Problem) : Option String := p.code.filter fun c => !c.isEmpty

/-- The label of the rule group a problem belongs to. -/
def ruleLabel (p : Problem) : String :=
  match p.effectiveCode with
  | some code => p.effectiveSource ++ ": " ++ code
  | none => p.effectiveSource

end Problem

end ProblemBoard
