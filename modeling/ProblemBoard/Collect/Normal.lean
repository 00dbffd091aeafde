import ProblemBoard.Finding.Basic
import ProblemBoard.Problem.Basic

/-!
# Problems of findings

A finding becomes a problem of its file: positions are counted from zero, a missing end is
the start, an empty code is none, and a missing or empty source is the producer.
-/

namespace ProblemBoard

/-- A number as counted from zero.  There is nothing in front of the first one. -/
def Base.toZero : Base → UInt32 → UInt32
  | .zero, n => n
  | .one, n => if n = 0 then 0 else n - 1

theorem Base.toNat_toZero_one (n : UInt32) : (Base.one.toZero n).toNat = n.toNat - 1 := by
  rw [toZero]
  split
  · next h => rw [h, UInt32.toNat_zero]
  · next h =>
    have hone : 1 ≤ n := UInt32.pos_iff_ne_zero.2 h
    rw [UInt32.toNat_sub_of_le n 1 hone, UInt32.toNat_one]

def Base.position (b : Base) (p : Position) : Position := ⟨b.toZero p.line, b.toZero p.column⟩

def Grade.severity : Grade → Severity
  | .error => .error
  | .warning => .warning
  | .information => .info
  | .hint => .hint

def RuleCode.shown : RuleCode → Option String
  | .number n => some (toString n)
  | .text s => if s.isEmpty then none else some s

namespace Finding

/-- The range of a finding, counted from zero. -/
def range (x : Finding) : TextRange :=
  match x.stop with
  | some stop => .between (x.base.position x.start) (x.base.position stop)
  | none => .point (x.base.position x.start)

def shownSource (x : Finding) (producer : String) : String :=
  match x.source with
  | some s => if s.isEmpty then producer else s
  | none => producer

/-- The problem that a finding of a producer is in a file. -/
def problem (x : Finding) (file : Path) (producer : String) : Problem where
  file := file
  range := x.range
  severity := x.grade.severity
  message := x.message
  source := x.shownSource producer
  code := x.code.bind RuleCode.shown

end Finding

end ProblemBoard
