import ProblemBoard.Proofs.Refresh.Frame

/-!
# What a board holds

The *contents* of a board are the problems it shows, those of the program as a whole, and the
error it shows in their place.  `Board.contents_after` says once what a step does to them: a
pause takes everything away, a scan whose result is shown brings what it ended in, and nothing
else changes them.  Another arrangement does not.
-/

namespace ProblemBoard.Refresh

/-- What a board holds. -/
structure Contents where
  problems : List Problem
  global : List Problem
  error : Option String

/-- What a board holds. -/
def Board.contents (b : Board) : Contents := ⟨b.problems, b.global, b.error⟩

/-- Nothing at all. -/
def Contents.empty : Contents := ⟨[], [], none⟩

/-- What a board holds when it shows what a scan ended in. -/
def Contents.ofResult : Except ScanError ScanResult → Contents
  | .ok r => ⟨r.collection.problems, r.collection.global, none⟩
  | .error e => ⟨[], [], some e.message⟩

/-! ## Parts of steps -/

theorem Board.contents_apply (b : Board) (a : Action) :
    (b.apply a).contents = if a = .paused then .empty else b.contents := by
  cases a <;> rfl

theorem Board.contents_transition (b : Board) (f : Machine → Machine × Action) :
    (b.transition f).contents = if (f b.machine).2 = .paused then .empty else b.contents :=
  Board.contents_apply _ _

theorem Board.contents_report (b : Board) (result : Except ScanError ScanResult) :
    (b.report result).contents = .ofResult result := by
  cases result with
  | ok r => rfl
  | error e => rfl

@[simp] theorem Board.contents_setMode (b : Board) (mode : GroupMode) :
    (b.setMode mode).contents = b.contents := by
  obtain ⟨_, _, _, he⟩ := b.setMode_frame mode
  rw [he]
  rfl

@[simp] theorem Board.contents_navigate (b : Board) (move : Cursor.Move) :
    (b.navigate move).1.contents = b.contents := by
  obtain ⟨_, _, he⟩ := b.navigate_frame move
  rw [he]
  rfl

/-! ## Whole steps -/

/-- What a board holds after a step, pauses apart. -/
def Board.contentsAfter (b : Board) : Step → Contents
  | .scanFinished _ result =>
      if b.machine.scanFinished.2.publish then .ofResult result else b.contents
  | _ => b.contents

theorem Board.contents_scanFinished (b : Board) (id : Nat)
    (result : Except ScanError ScanResult) :
    (b.scanFinished id result).contents = b.contentsAfter (.scanFinished id result) := by
  have hn := b.machine.scanFinished_turn.ne_of_finished.2
  unfold Board.scanFinished
  dsimp only
  rw [Board.contents_apply, if_neg hn, Board.contentsAfter]
  split
  · exact Board.contents_report _ _
  · rfl

/-- What a step does to what a board holds. -/
theorem Board.contents_after (b : Board) (s : Step) :
    (b.after s).contents = if b.action s = .paused then .empty else b.contentsAfter s := by
  cases s with
  | called c =>
    cases c with
    | requestRefresh | requestImmediate | setPaused | togglePause =>
      exact b.contents_transition _
    | setMode mode | regroupThen mode => exact b.contents_setMode mode
    | refreshThen changed =>
      cases changed with
      | true => rfl
      | false => exact b.contents_transition _
    | navigate move => exact b.contents_navigate move
    | isPaused | updateSettings | revalidate | project | shutdown => rfl
  | timerFired g => exact Board.contents_apply _ _
  | scanFinished id result =>
    have hn : b.action (.scanFinished id result) ≠ .paused :=
      b.machine.scanFinished_turn.ne_of_finished.2
    rw [if_neg hn]
    exact b.contents_scanFinished id result
  | resolutionLanded r project =>
    show (b.resolutionLanded r project).contents = _
    by_cases h : r.revision = b.revision
    · rw [Board.resolutionLanded_of_eq h, Board.action, Board.response,
        Board.signal_landed_of_eq h]
      exact Board.contents_transition _ _
    · rw [Board.resolutionLanded_of_ne h, Board.action,
        b.response_of_silent (Board.signal_landed_of_ne h _)]
      rfl

/-- A step that is not the end of a scan and begins no pause leaves what a board holds. -/
theorem Board.contents_after_of_ne {b : Board} {s : Step} (hp : b.action s ≠ .paused)
    (hx : b.signal s ≠ some .finished) : (b.after s).contents = b.contents := by
  rw [b.contents_after, if_neg hp]
  cases s with
  | scanFinished id result => exact absurd rfl hx
  | _ => rfl

end ProblemBoard.Refresh
