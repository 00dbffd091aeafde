/-!
# The cursor

The position in the flat list of problems, if there is one.  Stepping goes round at the
ends; without a position the first step forward leads to the first problem and the first
step back to the last one.
-/

namespace ProblemBoard

/-- A position in a list of a given length. -/
structure Cursor where
  index : Option Nat
  length : Nat
  deriving DecidableEq, Repr

namespace Cursor

def start : Cursor := ⟨none, 0⟩

/-- A list of another length.  The position stays if it is still in the list. -/
def resize (c : Cursor) (n : Nat) : Cursor := ⟨c.index.filter (· < n), n⟩

/-- Another list: no position. -/
def reset (n : Nat) : Cursor := ⟨none, n⟩

/-- The position a step forward leads to. -/
def after (c : Cursor) : Nat :=
  match c.index with
  | some i => (i + 1) % c.length
  | none => 0

/-- The position a step back leads to. -/
def behind (c : Cursor) : Nat :=
  match c.index with
  | some (i + 1) => i
  | _ => c.length - 1

inductive Move where
  | next
  | previous
  | goTo (i : Nat)
  deriving DecidableEq, Repr

/-- Where a move leads, `none` when there is no such place. -/
def target (c : Cursor) : Move → Option Nat
  | .next => if c.length = 0 then none else some c.after
  | .previous => if c.length = 0 then none else some c.behind
  | .goTo i => if i < c.length then some i else none

/-- The cursor after a move.  A move that leads nowhere leaves it where it is. -/
def move (c : Cursor) (m : Move) : Cursor :=
  match c.target m with
  | some i => { c with index := some i }
  | none => c

end Cursor

end ProblemBoard
