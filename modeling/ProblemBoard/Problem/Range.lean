/-!
# Text ranges

A range inside a file counts lines and columns from zero, in numbers of 32 bits, and its end
is exclusive.  A range never ends before it starts: `TextRange.between` moves such an end onto
the start.
-/

namespace ProblemBoard

/-- The number counted from one that stands for a number counted from zero, `none` when it
does not have 32 bits. -/
def oneBased? (n : UInt32) : Option UInt32 :=
  if n.toNat + 1 < UInt32.size then some (n + 1) else none

/-- A line and a column, counted from zero. -/
structure Position where
  line : UInt32
  column : UInt32
  deriving DecidableEq, Repr

namespace Position

/-- Whether a position stands in front of another one. -/
def before (p q : Position) : Bool :=
  p.line < q.line || (p.line = q.line && p.column < q.column)

theorem before_irrefl (p : Position) : p.before p = false := by simp [before]

end Position

/-- A range inside a file. -/
structure TextRange where
  start : Position
  /-- The position behind the last one. -/
  stop : Position
  /-- The end does not stand in front of the start. -/
  ordered : stop.before start = false
  deriving DecidableEq, Repr

namespace TextRange

/-- The range between two positions.  An end in front of the start becomes the start. -/
def between (start stop : Position) : TextRange :=
  if h : stop.before start = true then ⟨start, start, start.before_irrefl⟩
  else ⟨start, stop, by simpa using h⟩

/-- The range of no width at a position. -/
def point (p : Position) : TextRange := between p p

theorem point_start (p : Position) : (point p).start = p := by
  simp [point, between, Position.before_irrefl]

theorem between_start (p q : Position) : (between p q).start = p := by
  unfold between; split <;> rfl

theorem between_stop (p q : Position) :
    (between p q).stop = if q.before p = true then p else q := by
  unfold between; split <;> rfl

/-- A range ends on a later line than it starts on, or on the same line and not in front of it. -/
theorem start_le_stop (r : TextRange) :
    r.start.line < r.stop.line ∨
      r.start.line = r.stop.line ∧ r.start.column ≤ r.stop.column := by
  have h := r.ordered
  simp only [Position.before, Bool.or_eq_false_iff, Bool.and_eq_false_iff,
    decide_eq_false_iff_not, UInt32.lt_iff_toNat_lt, ← UInt32.toNat_inj] at h
  rw [UInt32.lt_iff_toNat_lt, ← UInt32.toNat_inj, UInt32.le_iff_toNat_le]
  omega

end TextRange

end ProblemBoard
