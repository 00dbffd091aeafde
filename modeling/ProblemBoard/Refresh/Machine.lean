import ProblemBoard.Refresh.Cursor
import ProblemBoard.Settings.Basic

/-!
# The refresh machine

When a scan is due.  A request waits for a time of quiet, an immediate one does not.  A
request that comes while a scan runs is remembered, and leads to one more scan a short time
after.  While paused, requests are ignored, and the scan that ran into the pause is not
published.

The machine only decides: each step gives back the action that follows from it.  A timer
carries the number it was armed with, so one that was replaced starts nothing.
-/

namespace ProblemBoard.Refresh

/-- What the machine is doing. -/
inductive Phase where
  | idle
  /-- It waits for quiet. -/
  | debouncing
  | scanning
  deriving DecidableEq, Repr

def Phase.name : Phase → String
  | .idle => "idle"
  | .debouncing => "debouncing"
  | .scanning => "scanning"

/-- What follows from a step of the machine. -/
inductive Action where
  | none
  | queued
  /-- A timer takes the place of any other one. -/
  | armTimer (generation delay : Nat)
  /-- A scan starts now, and any timer is cancelled. -/
  | startScan
  /-- A pause began: any timer is cancelled and nothing is shown any more. -/
  | paused
  deriving DecidableEq, Repr

/-- When a scan is due. -/
structure Machine where
  phase : Phase
  paused : Bool
  /-- Whether a request came while the scan ran. -/
  pending : Bool
  /-- Whether the running scan ran into a pause. -/
  discard : Bool
  /-- The number of the last timer or scan. -/
  generation : Nat
  timings : Timings
  /-- The position in the list of problems. -/
  cursor : Cursor
  deriving DecidableEq, Repr

/-- What becomes of a scan that finished. -/
structure Completion where
  /-- Whether its result is shown. -/
  publish : Bool
  next : Action
  deriving DecidableEq, Repr

namespace Machine

/-- The machine before anything happened. -/
def start (t : Timings) : Machine := ⟨.idle, false, false, false, 0, t, .start⟩

/-- Other times to wait, from the next timer on. -/
def setTimings (m : Machine) (t : Timings) : Machine := { m with timings := t }

/-- Arms a timer. -/
def arm (m : Machine) (delay : Nat) : Machine × Action :=
  ({ m with generation := m.generation + 1, phase := .debouncing },
    .armTimer (m.generation + 1) delay)

def begin (m : Machine) : Machine × Action :=
  ({ m with generation := m.generation + 1, phase := .scanning }, .startScan)

def enqueue (m : Machine) : Machine × Action := ({ m with pending := true }, .queued)

/-- A request that waits for quiet. -/
def requestRefresh (m : Machine) : Machine × Action :=
  if m.paused then (m, .none)
  else if m.phase = .scanning then m.enqueue
  else m.arm m.timings.debounce

/-- A request that does not wait. -/
def requestImmediate (m : Machine) : Machine × Action :=
  if m.paused then (m, .none)
  else if m.phase = .scanning then m.enqueue
  else m.begin

/-- A timer fired that was armed with a number. -/
def timerElapsed (m : Machine) (generation : Nat) : Machine × Action :=
  if m.paused || m.phase != .debouncing || generation != m.generation then (m, .none)
  else m.begin

/-- The running scan finished. -/
def scanFinished (m : Machine) : Machine × Completion :=
  let publish := !m.discard && !m.paused
  let idle := { m with discard := false, phase := .idle, pending := false }
  if !m.paused && m.pending then
    let (armed, next) := idle.arm m.timings.followUp
    (armed, ⟨publish, next⟩)
  else (idle, ⟨publish, .none⟩)

def pause (m : Machine) : Machine × Action :=
  let m := { m with paused := true, pending := false, cursor := .start }
  match m.phase with
  | .idle => (m, .paused)
  | .debouncing => ({ m with generation := m.generation + 1, phase := .idle }, .paused)
  | .scanning => ({ m with discard := true }, .paused)

def resume (m : Machine) : Machine × Action :=
  let m := { m with paused := false }
  if m.phase = .scanning then m.enqueue else m.begin

/-- A pause begins or ends, if that is news. -/
def setPaused (m : Machine) (paused : Bool) : Machine × Action :=
  if paused = m.paused then (m, .none) else if paused then m.pause else m.resume

/-- A new list of problems, on which the position stays if it can. -/
def resize (m : Machine) (n : Nat) : Machine := { m with cursor := m.cursor.resize n }

/-- Another list of problems. -/
def resetCursor (m : Machine) (n : Nat) : Machine := { m with cursor := .reset n }

def navigate (m : Machine) (move : Cursor.Move) : Machine × Option Nat :=
  ({ m with cursor := m.cursor.move move }, m.cursor.target move)

end Machine

end ProblemBoard.Refresh
