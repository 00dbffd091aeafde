import ProblemBoard.Refresh.Call

/-!
# Steps

Everything that can happen to a board, one step at a time: a step of a call, a timer that
fires, a scan that finishes, a resolution that comes back.  A board has no other way to
change but the delivery of its effects, which takes them off the queue.
-/

namespace ProblemBoard.Refresh

/-- What can happen to a board. -/
inductive Step where
  | called (c : Call)
  /-- A timer fires, maybe one that was replaced or cancelled. -/
  | timerFired (generation : Nat)
  | scanFinished (id : Nat) (result : Except ScanError ScanResult)
  /-- A resolution comes back with a project. -/
  | resolutionLanded (r : Resolution) (project : Project)

def Board.after (b : Board) : Step → Board
  | .called c => (c.step b).board
  | .timerFired generation => b.timerFired generation
  | .scanFinished id result => b.scanFinished id result
  | .resolutionLanded r project => b.resolutionLanded r project

end ProblemBoard.Refresh
