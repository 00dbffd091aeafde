import ProblemBoard.Proofs.Refresh.Transitions
import ProblemBoard.Refresh.Step

/-!
# Runs of a board

A run is any order of steps, each of them possible at the board it finds: steps of calls,
timers that fire, scans that finish and resolutions that come back.  A timer of any number
may fire at any time, so one whose cancellation came too late is covered, and so is a later
step of a call that comes where no earlier one did.  Only work that is under way comes to an
end: a scan with a collection arranged as the scan was told, a resolution with the project
that its files give.  In between, effects are taken off the queue.

A run keeps its *moments*, newest first: which step was taken, and on which board.  What was
told to the machine, which action followed and which effects were queued is read off them.
-/

namespace ProblemBoard.Refresh

/-! ## Steps seen from the machine -/

/-- What a step tells the machine, if anything. -/
def Board.signal (b : Board) : Step → Option Signal
  | .called .requestRefresh => some .refresh
  | .called .requestImmediate => some .immediate
  | .called (.setPaused paused) => some (.pause paused)
  | .called .togglePause => some (.pause !b.machine.paused)
  | .called (.refreshThen changed) => if changed then none else some .refresh
  | .called _ => none
  | .timerFired generation => some (.elapsed generation)
  | .scanFinished _ _ => some .finished
  | .resolutionLanded r _ => if r.revision = b.revision then some .immediate else none

/-- The machine after it was told of a step, and the action that follows. -/
def Board.response (b : Board) (s : Step) : Machine × Action :=
  match b.signal s with
  | some x => b.machine.receive x
  | none => (b.machine, .none)

/-- The action that follows from a step. -/
def Board.action (b : Board) (s : Step) : Action := (b.response s).2

/-- Whether a step can come next, as long as the board is not shut down. -/
def Board.Admits (b : Board) : Step → Prop
  | .called .shutdown => False
  | .called _ => True
  | .timerFired _ => True
  | .scanFinished id result =>
      ∃ s ∈ b.scans, s.id = id ∧ ∀ r, result = .ok r → ∃ c, r = s.result c
  | .resolutionLanded r project =>
      r ∈ b.resolutions ∧ ∃ fs, project = Project.resolve fs r.root r.overrides

/-! ## Runs -/

/-- A step and the board on which it was taken. -/
structure Moment where
  /-- The board before the step. -/
  board : Board
  /-- The step. -/
  step : Step

/-- The runs from a board: their moments, newest first, and the board they lead to. -/
inductive Run (b₀ : Board) : List Moment → Board → Prop where
  | refl : Run b₀ [] b₀
  | step {h : List Moment} {b : Board} (s : Step) :
      Run b₀ h b → b.Admits s → Run b₀ (⟨b, s⟩ :: h) (b.after s)
  /-- Effects are taken off the queue, and a delivery may begin or end. -/
  | deliver {h : List Moment} {b : Board} {rest : List Effect} {flushing : Bool} :
      Run b₀ h b → rest <:+ b.effects → Run b₀ h { b with effects := rest, flushing }

/-- The action that followed at a moment. -/
def Moment.action (m : Moment) : Action := m.board.action m.step

/-- The effects that were queued at a moment. -/
def Moment.pushed (m : Moment) : List Effect :=
  (m.board.after m.step).effects.drop m.board.effects.length

/-- Whether a scan started at a moment. -/
def Moment.starts (m : Moment) : Bool := m.action = .startScan

/-- Whether a scan finished at a moment. -/
def Moment.finishes (m : Moment) : Bool :=
  match m.step with
  | .scanFinished _ _ => true
  | _ => false

/-- The timer that an action arms. -/
def Action.timer? : Action → Option Timer
  | .armTimer generation delay => some ⟨generation, delay⟩
  | _ => .none

/-- The timers that were armed in the course of some moments, oldest first. -/
def armed (h : List Moment) : List Timer := h.reverse.filterMap fun m => m.action.timer?

/-- The effects that were queued in the course of some moments, oldest first. -/
def pushed (h : List Moment) : List Effect := h.reverse.flatMap Moment.pushed

@[simp] theorem Moment.action_mk (b : Board) (s : Step) :
    Moment.action ⟨b, s⟩ = b.action s := rfl

@[simp] theorem Moment.starts_mk (b : Board) (s : Step) :
    Moment.starts ⟨b, s⟩ = decide (b.action s = .startScan) := rfl

@[simp] theorem armed_nil : armed [] = [] := rfl

@[simp] theorem armed_cons (m : Moment) (h : List Moment) :
    armed (m :: h) = armed h ++ m.action.timer?.toList := by
  simp only [armed, List.reverse_cons, List.filterMap_append, List.filterMap_cons,
    List.filterMap_nil]
  cases m.action.timer? <;> rfl

@[simp] theorem pushed_nil : pushed [] = [] := rfl

@[simp] theorem pushed_cons (m : Moment) (h : List Moment) :
    pushed (m :: h) = pushed h ++ m.pushed := by
  simp [pushed]

/-! ## Steps as turns of the machine -/

theorem Board.signal_landed_of_eq {b : Board} {r : Resolution} (h : r.revision = b.revision)
    (project : Project) : b.signal (.resolutionLanded r project) = some .immediate :=
  if_pos h

theorem Board.signal_landed_of_ne {b : Board} {r : Resolution} (h : r.revision ≠ b.revision)
    (project : Project) : b.signal (.resolutionLanded r project) = none :=
  if_neg h

theorem Board.response_of_silent {b : Board} {s : Step} (h : b.signal s = none) :
    b.response s = (b.machine, .none) := by
  simp [Board.response, h]

/-- A step that tells the machine something is a turn of the machine. -/
theorem Board.turn {b : Board} {s : Step} {x : Signal} (h : b.signal s = some x) :
    Turn b.machine x (b.response s).1 (b.action s) := by
  have hr : b.response s = b.machine.receive x := by simp [Board.response, h]
  rw [Board.action, hr]
  exact b.machine.receive_turn x

/-- What follows from a step follows from a turn of the machine. -/
theorem Board.turn_of_action {b : Board} {s : Step} {a : Action} (h : b.action s = a)
    (ha : a ≠ .none) : ∃ x, b.signal s = some x ∧ Turn b.machine x (b.response s).1 a := by
  cases hx : b.signal s with
  | none =>
    rw [Board.action, b.response_of_silent hx] at h
    exact absurd h.symm ha
  | some x => exact ⟨x, rfl, h ▸ b.turn hx⟩

/-- A scan finished at the step that says so, and at no other. -/
theorem Board.scanFinished_of_signal {b : Board} {s : Step} (h : b.signal s = some .finished) :
    ∃ id result, s = .scanFinished id result := by
  unfold Board.signal at h
  split at h
  case h_8 id result => exact ⟨id, result, rfl⟩
  all_goals simp at h

theorem Board.generation_le (b : Board) (s : Step) :
    b.machine.generation ≤ (b.response s).1.generation := by
  cases hx : b.signal s with
  | none => simp [b.response_of_silent hx]
  | some x => exact (b.turn hx).generation_le

theorem Board.generation_of_armTimer {b : Board} {s : Step} {g d : Nat}
    (h : b.action s = .armTimer g d) :
    g = b.machine.generation + 1 ∧ (b.response s).1.generation = g := by
  obtain ⟨x, -, ht⟩ := b.turn_of_action h nofun
  exact ht.generation_of_armTimer

theorem Board.phase_of_startScan {b : Board} {s : Step} (h : b.action s = .startScan) :
    b.machine.phase ≠ .scanning := by
  obtain ⟨x, -, ht⟩ := b.turn_of_action h nofun
  exact ht.phase_of_startScan

/-! ## Parts of runs -/

section
variable {b₀ b : Board} {later earlier : List Moment} {m : Moment}

/-- Every moment of a run stands at the end of a run of its own. -/
theorem Run.at_moment (hr : Run b₀ (later ++ m :: earlier) b) :
    Run b₀ earlier m.board ∧ m.board.Admits m.step := by
  generalize hh : later ++ m :: earlier = h at hr
  induction hr generalizing later with
  | refl => simp at hh
  | deliver _ _ ih => exact ih hh
  | step s hr ha ih =>
    cases later with
    | nil =>
      obtain ⟨rfl, rfl⟩ := List.cons.inj hh
      exact ⟨hr, ha⟩
    | cons k later => exact ih (List.cons.inj hh).2

/-- What holds after a moment and is kept by each later one holds at the end of the run. -/
theorem Run.since {P : Board → Prop} (hr : Run b₀ (later ++ m :: earlier) b)
    (hdeliver : ∀ b rest flushing, P b → P { b with effects := rest, flushing })
    (hfirst : P (m.board.after m.step))
    (hlater : ∀ k ∈ later, ∀ between, Run b₀ (between ++ m :: earlier) k.board →
      k.board.Admits k.step → P k.board → P (k.board.after k.step)) : P b := by
  generalize hh : later ++ m :: earlier = h at hr
  induction hr generalizing later with
  | refl => simp at hh
  | deliver _ _ ih => exact hdeliver _ _ _ (ih hlater hh)
  | step s hr ha ih =>
    cases later with
    | nil =>
      obtain ⟨rfl, rfl⟩ := List.cons.inj hh
      exact hfirst
    | cons k later =>
      obtain ⟨rfl, rfl⟩ := List.cons.inj hh
      exact hlater _ (.head _) later hr ha (ih (fun j hj => hlater j (.tail _ hj)) rfl)

end

end ProblemBoard.Refresh
