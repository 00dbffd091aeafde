import ProblemBoard.Proofs.Refresh.Run

/-!
# What the host is told

A step only adds to the effects that wait.  First comes what the step says of itself: the
result of a scan, another arrangement, the problem a move leads to.  Then comes what follows
from the action of the machine.  `Board.effects_after` says once what a step adds.

The badge beside the list is the last one the host was told of.
-/

namespace ProblemBoard.Refresh

/-! ## What is queued -/

/-- What an action has the host told. -/
def Action.effects : Action → List Effect
  | .startScan => [.badge .scanning]
  | .paused => [.badge .clear, .dataChanged]
  | _ => []

/-- The notices of failures of producers that were not told before. -/
def notices (notified : List String) : List Failure → List Effect
  | [] => []
  | e :: es =>
      if notified.contains e.producer then notices notified es
      else .notify e.message :: notices (e.producer :: notified) es

/-- The producers whose failure was told before or is told now. -/
def noticed (notified : List String) : List Failure → List String
  | [] => notified
  | e :: es =>
      if notified.contains e.producer then noticed notified es
      else noticed (e.producer :: notified) es

/-- The tree a result is shown as. -/
def Board.viewOf (b : Board) (r : ScanResult) : View :=
  if r.view.mode = b.mode then r.view
  else .arrange r.collection.problems b.mode b.project.root

/-- What the host is told of what a scan ended in. -/
def Board.news (b : Board) : Except ScanError ScanResult → List Effect
  | .ok r =>
      notices b.notified r.collection.failures ++
        [.badge (.ofErrors (b.viewOf r).errorCount), .dataChanged]
  | .error e => [.badge .clear, .showError e.message]

/-- What the host is told when another arrangement is chosen. -/
def Board.rearranged (b : Board) (mode : GroupMode) : List Effect :=
  if mode = b.mode ∨ b.machine.paused ∨ b.error.isSome then [] else [.dataChanged]

/-- What a step says of itself. -/
def Board.told (b : Board) : Step → List Effect
  | .called (.setMode mode) => b.rearranged mode
  | .called (.regroupThen mode _) => b.rearranged mode
  | .called (.navigate move) => (b.navigate move).2.toList.map .reveal
  | .scanFinished _ result => if b.machine.scanFinished.2.publish then b.news result else []
  | _ => []

/-! ## Parts of steps -/

theorem Board.effects_apply (b : Board) (a : Action) :
    (b.apply a).effects = b.effects ++ a.effects := by
  cases a <;> simp [Board.apply, Action.effects, Board.push, Board.spawnScan, Board.clearResults]

theorem Board.effects_transition (b : Board) (f : Machine → Machine × Action) :
    (b.transition f).effects = b.effects ++ (f b.machine).2.effects :=
  Board.effects_apply _ _

/-- Telling of failures queues notices and remembers the producers, and nothing else. -/
theorem Board.notifyFailures_eq (b : Board) (es : List Failure) :
    b.notifyFailures es =
      { b with
        notified := noticed b.notified es
        effects := b.effects ++ notices b.notified es } := by
  induction es generalizing b with
  | nil => simp [Board.notifyFailures, notices, noticed]
  | cons e es ih =>
    unfold Board.notifyFailures notices noticed
    split
    · exact ih b
    · rw [ih]
      simp [Board.push]

theorem Board.effects_report (b : Board) (result : Except ScanError ScanResult) :
    (b.report result).effects = b.effects ++ b.news result := by
  cases result with
  | ok r =>
    show (Board.notifyFailures _ r.collection.failures).effects ++ _ ++ _ = _
    rw [Board.notifyFailures_eq, List.append_assoc, List.append_assoc]
    rfl
  | error e =>
    show b.effects ++ _ ++ _ = _
    rw [List.append_assoc]
    rfl

theorem Board.effects_setMode (b : Board) (mode : GroupMode) :
    (b.setMode mode).effects = b.effects ++ b.rearranged mode := by
  unfold Board.setMode Board.rearranged
  dsimp only
  split
  · next hm => simp [hm]
  · next hm =>
    split
    · next hb => simp_all
    · next hb => simp_all [Board.push]

theorem Board.effects_navigate (b : Board) (move : Cursor.Move) :
    (b.navigate move).1.effects = b.effects ++ (b.navigate move).2.toList.map .reveal := by
  unfold Board.navigate
  dsimp only
  split
  · simp
  · split <;> simp [Board.push]

/-! ## Whole steps -/

/-- What a step adds to the effects that wait. -/
theorem Board.effects_after (b : Board) (s : Step) :
    (b.after s).effects = b.effects ++ (b.told s ++ (b.action s).effects) := by
  cases s with
  | called c =>
    cases c with
    | requestRefresh | requestImmediate | setPaused | togglePause =>
      exact b.effects_transition _
    | setMode mode | regroupThen mode =>
      show _ = b.effects ++ (b.rearranged mode ++ [])
      rw [List.append_nil]
      exact b.effects_setMode mode
    | navigate move =>
      show _ = b.effects ++ (_ ++ [])
      rw [List.append_nil]
      exact b.effects_navigate move
    | refreshThen changed =>
      cases changed with
      | true => exact (List.append_nil _).symm
      | false => exact b.effects_transition _
    | isPaused | updateSettings | revalidate | project | shutdown =>
      exact (List.append_nil _).symm
  | timerFired g => exact Board.effects_apply _ _
  | scanFinished id result =>
    show (b.scanFinished id result).effects = _
    unfold Board.scanFinished
    dsimp only
    rw [Board.effects_apply, ← List.append_assoc, Board.told]
    split
    · rw [Board.effects_report]
      rfl
    · rw [List.append_nil]
      rfl
  | resolutionLanded r project =>
    show (b.resolutionLanded r project).effects = b.effects ++ (b.response _).2.effects
    by_cases h : r.revision = b.revision
    · rw [Board.resolutionLanded_of_eq h, Board.response, Board.signal_landed_of_eq h]
      exact Board.effects_transition _ _
    · rw [Board.resolutionLanded_of_ne h, b.response_of_silent (Board.signal_landed_of_ne h _)]
      exact (List.append_nil _).symm

/-- What is queued at a moment. -/
theorem Moment.pushed_mk (b : Board) (s : Step) :
    Moment.pushed ⟨b, s⟩ = b.told s ++ (b.action s).effects := by
  simp [Moment.pushed, b.effects_after s]

/-! ## Badges -/

/-- The badge that an effect brings. -/
def Effect.badge? : Effect → Option Badge
  | .badge b => some b
  | _ => none

/-- The last badge among effects. -/
def lastBadge (es : List Effect) : Option Badge := (es.filterMap Effect.badge?).getLast?

/-- Effects without a badge leave the last one as it is. -/
theorem lastBadge_append_of_none {es es' : List Effect} (h : ∀ e ∈ es', e.badge? = none) :
    lastBadge (es ++ es') = lastBadge es := by
  rw [lastBadge, List.filterMap_append, List.filterMap_eq_nil_iff.2 h, List.append_nil]
  rfl

/-- A badge takes the place of the last one. -/
theorem lastBadge_append_of_some {es es' : List Effect} {b : Badge} (h : lastBadge es' = some b) :
    lastBadge (es ++ es') = some b := by
  rw [lastBadge, List.filterMap_append, List.getLast?_append]
  show (lastBadge es').or _ = _
  rw [h]
  rfl

end ProblemBoard.Refresh
