import ProblemBoard.Collect.Basic
import ProblemBoard.Project.Resolution
import ProblemBoard.Refresh.Machine
import ProblemBoard.View.Badge
import ProblemBoard.View.Grouping

/-!
# The board

The board holds what is shown and what goes on behind it: the machine, the project, the
filters, the problems with their tree, the armed timer, the scans that run and the
resolutions of the project that are under way.

Every definition below is one step that nothing else can interrupt.  A step may queue
effects for the host; they are delivered later, in the order in which they were queued.
Steps that start work note it on the board: `timer` is the armed timer, `scans` are the
scans that run, `resolutions` the resolutions under way.  When such work is done it comes
back as a step of its own.
-/

namespace ProblemBoard.Refresh

/-- What the host is told. -/
inductive Effect where
  | badge (b : Badge)
  | dataChanged
  | showError (message : String)
  | notify (message : String)
  /-- A problem is to be shown. -/
  | reveal (p : Problem)
  deriving DecidableEq, Repr

structure Timer where
  /-- The number it was armed with. -/
  generation : Nat
  /-- How long it waits. -/
  delay : Nat
  deriving DecidableEq, Repr

/-- A scan, with everything it goes by. -/
structure Scan where
  id : Nat
  project : Project
  filters : Filters
  mode : GroupMode
  deriving DecidableEq, Repr

/-- What a scan ends in. -/
structure ScanResult where
  collection : Collection
  view : View

/-- A resolution of the project, with everything it goes by. -/
structure Resolution where
  revision : Nat
  root : Path
  /-- The configurations the user names. -/
  overrides : Overrides
  deriving DecidableEq, Repr

/-- What is shown and what goes on behind it. -/
structure Board where
  /-- When a scan is due. -/
  machine : Machine
  project : Project
  overrides : Overrides
  filters : Filters
  mode : GroupMode
  /-- The problems behind the tree. -/
  problems : List Problem
  global : List Problem
  view : View
  /-- Why nothing could be collected. -/
  error : Option String
  /-- The producers whose failure the user has been told. -/
  notified : List String
  timer : Option Timer
  scans : List Scan
  scansStarted : Nat
  /-- The resolutions under way, oldest first. -/
  resolutions : List Resolution
  /-- The number of the newest resolution. -/
  revision : Nat
  /-- The effects that wait for delivery, oldest first. -/
  effects : List Effect
  /-- Whether someone is delivering effects. -/
  flushing : Bool

namespace Board

/-- The board before anything happened. -/
def start (project : Project) (s : Settings) : Board where
  machine := .start s.refresh
  project := project
  overrides := .ofSettings s
  filters := .ofSettings s
  mode := s.view.groupBy
  problems := []
  global := []
  view := .empty s.view.groupBy
  error := none
  notified := []
  timer := none
  scans := []
  scansStarted := 0
  resolutions := []
  revision := 0
  effects := []
  flushing := false

/-! ## Parts of steps -/

def push (b : Board) (e : Effect) : Board := { b with effects := b.effects ++ [e] }

/-- Shows nothing. -/
def clearResults (b : Board) : Board :=
  { b with problems := [], global := [], view := .empty b.mode }

/-- Starts a scan that goes by what the board holds now. -/
def spawnScan (b : Board) : Board :=
  { b with
    scansStarted := b.scansStarted + 1
    scans := b.scans ++ [⟨b.scansStarted + 1, b.project, b.filters, b.mode⟩] }

/-- Carries out what follows from a step of the machine. -/
def apply (b : Board) : Action → Board
  | .none => b
  | .queued => b
  | .armTimer generation delay => { b with timer := some ⟨generation, delay⟩ }
  | .startScan => ({ b with timer := none }.spawnScan).push (.badge .scanning)
  | .paused =>
      (({ b with timer := none, error := none }.clearResults).push (.badge .clear)).push
        .dataChanged

/-- Takes a step of the machine and carries out what follows. -/
def transition (b : Board) (step : Machine → Machine × Action) : Board :=
  { b with machine := (step b.machine).1 }.apply (step b.machine).2

/-! ## Requests, pauses and timers -/

def requestRefresh (b : Board) : Board := b.transition Machine.requestRefresh

def requestImmediate (b : Board) : Board := b.transition Machine.requestImmediate

def setPaused (b : Board) (paused : Bool) : Board := b.transition fun m => m.setPaused paused

/-- A timer fires, maybe one that was replaced or cancelled. -/
def timerFired (b : Board) (generation : Nat) : Board :=
  let (machine, action) := b.machine.timerElapsed generation
  { b with machine, timer := if action = Action.none then b.timer else none }.apply action

/-! ## Results of scans -/

/-- Tells the user of the failures of producers that were not told before. -/
def notifyFailures (b : Board) : List Failure → Board
  | [] => b
  | e :: es =>
      if b.notified.contains e.producer then b.notifyFailures es
      else
        ({ b with notified := e.producer :: b.notified }.push (.notify e.message)).notifyFailures es

/-- Shows the result of a scan.  When the group mode changed meanwhile, the problems are
arranged again. -/
def publish (b : Board) (r : ScanResult) : Board :=
  let view :=
    if r.view.mode = b.mode then r.view
    else View.arrange r.collection.problems b.mode b.project.root
  let b := { b with machine := b.machine.resize view.flat.length }
  let b := (b.notifyFailures r.collection.failures).push (.badge (.ofErrors view.errorCount))
  { b with
    problems := r.collection.problems
    global := r.collection.global
    view := view
    error := none }.push .dataChanged

/-- Shows why a scan has no result. -/
def publishError (b : Board) (e : ScanError) : Board :=
  let b := { b.clearResults with machine := b.machine.resetCursor 0, error := some e.message }
  (b.push (.badge .clear)).push (.showError e.message)

/-- Shows what a scan ended in. -/
def report (b : Board) : Except ScanError ScanResult → Board
  | .ok r => b.publish r
  | .error e => b.publishError e

/-- A scan finishes.  What ran into a pause is dropped. -/
def scanFinished (b : Board) (id : Nat) (result : Except ScanError ScanResult) : Board :=
  let (machine, completion) := b.machine.scanFinished
  let b := { b with machine, scans := b.scans.filter (·.id != id) }
  (if completion.publish then b.report result else b).apply completion.next

/-! ## Arrangement, settings and project -/

/-- Arranges the problems another way. -/
def setMode (b : Board) (mode : GroupMode) : Board :=
  if mode = b.mode then b
  else
    let b := { b with mode }
    if b.machine.paused || b.error.isSome then { b with view := .empty mode }
    else
      let view := View.arrange b.problems mode b.project.root
      { b with view, machine := b.machine.resetCursor view.flat.length }.push .dataChanged

/-- Takes over the filters, the waiting times and the named configurations of new settings,
and says whether other configurations are named than before. -/
def adoptSettings (b : Board) (s : Settings) : Board × Bool :=
  let overrides := Overrides.ofSettings s
  ({ b with
      filters := .ofSettings s
      machine := b.machine.setTimings s.refresh
      overrides },
    overrides != b.overrides)

/-- Starts to resolve the project again. -/
def revalidate (b : Board) : Board :=
  { b with
    revision := b.revision + 1
    resolutions := b.resolutions ++ [⟨b.revision + 1, b.project.root, b.overrides⟩] }

/-- A resolution is done.  Only the newest one counts, and leads to a refresh at once. -/
def resolutionLanded (b : Board) (r : Resolution) (project : Project) : Board :=
  let b := { b with resolutions := b.resolutions.filter (·.revision != r.revision) }
  if r.revision = b.revision then { b with project }.requestImmediate else b

/-- A resolution that counts brings a project and a request. -/
theorem resolutionLanded_of_eq {b : Board} {r : Resolution} (h : r.revision = b.revision)
    (project : Project) :
    b.resolutionLanded r project =
      requestImmediate
        { b with
          project
          resolutions := b.resolutions.filter (·.revision != r.revision) } :=
  if_pos h

/-- A resolution that does not count any more is dropped. -/
theorem resolutionLanded_of_ne {b : Board} {r : Resolution} (h : r.revision ≠ b.revision)
    (project : Project) :
    b.resolutionLanded r project =
      { b with resolutions := b.resolutions.filter (·.revision != r.revision) } :=
  if_neg h

/-! ## Delivery of effects -/

/-- The first look of someone who wants to deliver: whether they take over, which they do unless
someone is delivering. -/
def beginDelivery (b : Board) : Board × Bool :=
  if b.flushing then (b, false) else ({ b with flushing := true }, true)

/-- Takes the effects that wait as one batch.  When there are none the delivery ends. -/
def takeBatch (b : Board) : Board × List Effect :=
  match b.effects with
  | [] => ({ b with flushing := false }, [])
  | e :: es => ({ b with effects := [] }, e :: es)

theorem takeBatch_of_nil {b : Board} (h : b.effects = []) :
    b.takeBatch = ({ b with flushing := false }, []) := by
  unfold takeBatch
  rw [h]

/-- A batch holds all effects that waited, and leaves none. -/
theorem takeBatch_of_ne_nil {b : Board} (h : b.effects ≠ []) :
    b.takeBatch = ({ b with effects := [] }, b.effects) := by
  unfold takeBatch
  split
  · next hn => exact absurd hn h
  · next hc => rw [hc]

/-! ## Navigation and the end -/

/-- Moves the cursor and reveals the problem it comes to. -/
def navigate (b : Board) (move : Cursor.Move) : Board × Option Problem :=
  let (machine, index) := b.machine.navigate move
  let b := { b with machine }
  match index with
  | none => (b, none)
  | some i =>
      match b.view.flat[i]? with
      | none => (b, none)
      | some p => (b.push (.reveal p), some p)

/-- Cancels the timer and the scans.  The machine is left as it is. -/
def shutdown (b : Board) : Board := { b with timer := none, scans := [] }

end Board

/-- What a scan makes of a collection. -/
def Scan.result (s : Scan) (c : Collection) : ScanResult :=
  ⟨c, View.arrange c.problems s.mode s.project.root⟩

end ProblemBoard.Refresh
