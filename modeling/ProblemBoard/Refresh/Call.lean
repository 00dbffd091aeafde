import ProblemBoard.Refresh.Board

/-!
# Calls

What a host may ask of the board.  Most calls are one step; new settings take three, and
other calls may come between them.  After each step the effects are delivered, unless a
delivery is under way, which then takes them along.
-/

namespace ProblemBoard.Refresh

/-- What a host may ask. -/
inductive Call where
  | requestRefresh
  | requestImmediate
  | setPaused (paused : Bool)
  | togglePause
  | isPaused
  | setMode (mode : GroupMode)
  | updateSettings (s : Settings)
  /-- New settings, after their first step: the arrangement, and whether other
  configurations are named. -/
  | regroupThen (mode : GroupMode) (changed : Bool)
  /-- New settings, after their second step. -/
  | refreshThen (changed : Bool)
  | revalidate
  | navigate (move : Cursor.Move)
  | project
  | shutdown

/-- What a call gives back. -/
inductive Reply where
  | nothing
  | bool (b : Bool)
  /-- The problem that is shown, if any. -/
  | problem (p : Option Problem)
  | project (p : Project)

/-- What a step of a call leads to: the board, and either the rest of the call or what it
gives back. -/
structure Stepped where
  board : Board
  /-- The rest of the call, or what it gives back. -/
  rest : Call ⊕ Reply

namespace Call

/-- One step of a call. -/
def step (b : Board) : Call → Stepped
  | .requestRefresh => ⟨b.requestRefresh, .inr .nothing⟩
  | .requestImmediate => ⟨b.requestImmediate, .inr .nothing⟩
  | .setPaused paused => ⟨b.setPaused paused, .inr .nothing⟩
  | .togglePause => ⟨b.setPaused (!b.machine.paused), .inr (.bool !b.machine.paused)⟩
  | .isPaused => ⟨b, .inr (.bool b.machine.paused)⟩
  | .setMode mode => ⟨b.setMode mode, .inr .nothing⟩
  | .updateSettings s =>
      let (b, changed) := b.adoptSettings s
      ⟨b, .inl (.regroupThen s.view.groupBy changed)⟩
  | .regroupThen mode changed => ⟨b.setMode mode, .inl (.refreshThen changed)⟩
  | .refreshThen changed =>
      ⟨if changed then b.revalidate else b.requestRefresh, .inr .nothing⟩
  | .revalidate => ⟨b.revalidate, .inr .nothing⟩
  | .navigate move =>
      let (b, p) := b.navigate move
      ⟨b, .inr (.problem p)⟩
  | .project => ⟨b, .inr (.project b.project)⟩
  | .shutdown => ⟨b.shutdown, .inr .nothing⟩

/-- The number of steps a call takes. -/
def steps : Call → Nat
  | .updateSettings _ => 3
  | .regroupThen _ _ => 2
  | _ => 1

theorem steps_lt {b : Board} {c d : Call} (h : (c.step b).rest = .inl d) : d.steps < c.steps := by
  cases c <;> simp [step] at h <;> subst h <;> simp [steps]

/-- A call without deliveries between its steps. -/
def run (b : Board) (c : Call) : Board × Reply :=
  match _h : (c.step b).rest with
  | .inr reply => ((c.step b).board, reply)
  | .inl rest => rest.run (c.step b).board
termination_by c.steps
decreasing_by exact steps_lt _h

end Call

end ProblemBoard.Refresh
