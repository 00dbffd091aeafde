import ProblemBoard.Proofs.Refresh.Frame

/-!
# Work under way

What a board has started and not seen the end of: the *work* of a board is its control, its
armed timer and its scans.  `Board.work_after` says once what a step does to it.  The control
becomes what the machine answers, the timer follows the action, a finished scan leaves, and
a new one joins when the action starts one.  What is shown has no part in it.
-/

namespace ProblemBoard.Refresh

/-- What is under way on a board. -/
structure Work where
  control : Control
  timer : Option Timer
  scans : List Scan
  started : Nat

/-- What is under way on a board. -/
def Board.work (b : Board) : Work := ⟨b.machine.control, b.timer, b.scans, b.scansStarted⟩

/-- The scan that would start now. -/
def Board.nextScan (b : Board) : Scan := ⟨b.scansStarted + 1, b.project, b.filters, b.mode⟩

/-- The armed timer after an action. -/
def Action.rearm (timer : Option Timer) : Action → Option Timer
  | .none => timer
  | .queued => timer
  | .armTimer generation delay => some ⟨generation, delay⟩
  | .startScan => .none
  | .paused => .none

/-- The project after a step: a resolution that still counts brings a new one. -/
def Board.projectAfter (b : Board) : Step → Project
  | .resolutionLanded r project => if r.revision = b.revision then project else b.project
  | _ => b.project

/-- The scans that a step leaves running. -/
def Step.left (scans : List Scan) : Step → List Scan
  | .scanFinished id _ => scans.filter (·.id != id)
  | _ => scans

theorem Step.mem_left {scans : List Scan} {st : Step} {s : Scan} (hs : s ∈ st.left scans) :
    s ∈ scans := by
  cases st with
  | scanFinished id result => exact (List.mem_filter.1 hs).1
  | _ => exact hs

/-- A scan stays until a step says that it finished. -/
theorem Step.mem_left_of_ne {scans : List Scan} {st : Step} {s : Scan} (hs : s ∈ scans)
    (hn : ∀ r, st ≠ .scanFinished s.id r) : s ∈ st.left scans := by
  cases st with
  | scanFinished id result =>
    refine List.mem_filter.2 ⟨hs, ?_⟩
    rw [bne_iff_ne]
    rintro rfl
    exact hn result rfl
  | _ => exact hs

@[simp] theorem Board.work_control (b : Board) : b.work.control = b.machine.control := rfl

@[simp] theorem Board.work_timer (b : Board) : b.work.timer = b.timer := rfl

@[simp] theorem Board.work_scans (b : Board) : b.work.scans = b.scans := rfl

@[simp] theorem Board.work_started (b : Board) : b.work.started = b.scansStarted := rfl

/-! ## Parts of steps -/

/-- What the carrying out of an action adds to the work. -/
theorem Board.work_apply (b : Board) (a : Action) :
    (b.apply a).work =
      { control := b.machine.control
        timer := a.rearm b.timer
        scans := b.scans ++ if a = .startScan then [b.nextScan] else []
        started := b.scansStarted + if a = .startScan then 1 else 0 } := by
  cases a <;> simp [Board.apply, Board.work, Board.spawnScan, Board.nextScan, Board.push,
    Board.clearResults, Action.rearm]

theorem Board.work_transition (b : Board) (f : Machine → Machine × Action) :
    (b.transition f).work =
      { control := (f b.machine).1.control
        timer := (f b.machine).2.rearm b.timer
        scans := b.scans ++ if (f b.machine).2 = .startScan then [b.nextScan] else []
        started := b.scansStarted + if (f b.machine).2 = .startScan then 1 else 0 } :=
  Board.work_apply _ _

@[simp] theorem Board.work_setMode (b : Board) (mode : GroupMode) :
    (b.setMode mode).work = b.work := by
  obtain ⟨_, _, _, he⟩ := b.setMode_frame mode
  rw [he]
  rfl

@[simp] theorem Board.work_navigate (b : Board) (move : Cursor.Move) :
    (b.navigate move).1.work = b.work := by
  obtain ⟨_, _, he⟩ := b.navigate_frame move
  rw [he]
  rfl

/-! ## Whole steps -/

/-- The work that a step leaves under way. -/
def Board.workAfter (b : Board) (s : Step) : Work where
  control := (b.response s).1.control
  timer := (b.action s).rearm b.timer
  scans := s.left b.scans ++
    if b.action s = .startScan then [{ b.nextScan with project := b.projectAfter s }] else []
  started := b.scansStarted + if b.action s = .startScan then 1 else 0

/-- A step that tells the machine nothing ends no scan. -/
theorem Board.left_of_silent {b : Board} {s : Step} (h : b.signal s = none) (scans : List Scan) :
    s.left scans = scans := by
  cases s with
  | scanFinished id result => cases h
  | _ => rfl

/-- A step that tells the machine nothing leaves the work as it is. -/
theorem Board.workAfter_of_silent {b : Board} {s : Step} (h : b.signal s = none) :
    b.workAfter s = b.work := by
  simp [Board.workAfter, Board.action, Board.response_of_silent h, Action.rearm,
    Board.left_of_silent h, Board.work]

theorem Board.workAfter_of_startScan {b : Board} {s : Step} (h : b.action s = .startScan) :
    b.workAfter s =
      { control := (b.response s).1.control
        timer := none
        scans := s.left b.scans ++ [{ b.nextScan with project := b.projectAfter s }]
        started := b.scansStarted + 1 } := by
  simp [Board.workAfter, h, Action.rearm]

theorem Board.workAfter_of_ne {b : Board} {s : Step} (h : b.action s ≠ .startScan) :
    b.workAfter s =
      ⟨(b.response s).1.control, (b.action s).rearm b.timer, s.left b.scans, b.scansStarted⟩ := by
  simp [Board.workAfter, h]

theorem Board.work_timerFired (b : Board) (g : Nat) :
    (b.timerFired g).work = b.workAfter (.timerFired g) := by
  have hr : b.response (.timerFired g) = b.machine.timerElapsed g := rfl
  unfold Board.timerFired
  rw [Board.work_apply, Board.workAfter, Board.action, hr]
  rcases (b.machine.timerElapsed_turn g).action_of_elapsed with h | h <;>
    simp [h, Action.rearm, Step.left, Board.nextScan, Board.projectAfter]

theorem Board.work_scanFinished (b : Board) (id : Nat) (result : Except ScanError ScanResult) :
    (b.scanFinished id result).work = b.workAfter (.scanFinished id result) := by
  have hr : b.response (.scanFinished id result) =
      (b.machine.scanFinished.1, b.machine.scanFinished.2.next) := rfl
  have hn := b.machine.scanFinished_turn.ne_of_finished.1
  obtain ⟨_, _, _, _, _, _, _, he⟩ := b.scanFinished_frame id result
  rw [he, Board.work_apply, Board.workAfter, Board.action, hr]
  simp [hn, Step.left, Machine.control]

theorem Board.work_resolutionLanded (b : Board) (r : Resolution) (project : Project) :
    (b.resolutionLanded r project).work = b.workAfter (.resolutionLanded r project) := by
  by_cases h : r.revision = b.revision
  · have hr : b.response (.resolutionLanded r project) = b.machine.requestImmediate := by
      rw [Board.response, Board.signal_landed_of_eq h]
      rfl
    rw [Board.resolutionLanded_of_eq h, Board.requestImmediate, Board.work_transition,
      Board.workAfter, Board.action, hr]
    simp [Step.left, Board.nextScan, Board.projectAfter, h]
  · rw [Board.resolutionLanded_of_ne h,
      Board.workAfter_of_silent (Board.signal_landed_of_ne h project)]
    rfl

theorem Board.Admits.ne_shutdown {b : Board} {s : Step} (ha : b.Admits s) :
    s ≠ .called .shutdown := by
  rintro rfl
  exact ha

/-- What a step does to the work under way, unless it is a shutdown. -/
theorem Board.work_after_of_ne {b : Board} {s : Step} (hs : s ≠ .called .shutdown) :
    (b.after s).work = b.workAfter s := by
  cases s with
  | called c =>
    cases c with
    | requestRefresh => exact b.work_transition Machine.requestRefresh
    | requestImmediate => exact b.work_transition Machine.requestImmediate
    | setPaused paused => exact b.work_transition fun m => m.setPaused paused
    | togglePause => exact b.work_transition fun m => m.setPaused !b.machine.paused
    | isPaused => rw [b.workAfter_of_silent rfl]; rfl
    | setMode mode => rw [b.workAfter_of_silent rfl]; exact b.work_setMode mode
    | updateSettings s => rw [b.workAfter_of_silent rfl]; rfl
    | regroupThen mode changed => rw [b.workAfter_of_silent rfl]; exact b.work_setMode mode
    | refreshThen changed =>
      cases changed with
      | true => rw [b.workAfter_of_silent rfl]; rfl
      | false => exact b.work_transition Machine.requestRefresh
    | revalidate => rw [b.workAfter_of_silent rfl]; rfl
    | navigate move => rw [b.workAfter_of_silent rfl]; exact b.work_navigate move
    | project => rw [b.workAfter_of_silent rfl]; rfl
    | shutdown => exact absurd rfl hs
  | timerFired g => exact b.work_timerFired g
  | scanFinished id result => exact b.work_scanFinished id result
  | resolutionLanded r project => exact b.work_resolutionLanded r project

/-- What a step of a run does to the work under way. -/
theorem Board.work_after {b : Board} {s : Step} (ha : b.Admits s) :
    (b.after s).work = b.workAfter s :=
  b.work_after_of_ne ha.ne_shutdown

theorem Board.control_after {b : Board} {s : Step} (ha : b.Admits s) :
    (b.after s).machine.control = (b.response s).1.control :=
  congrArg Work.control (b.work_after ha)

theorem Board.paused_after {b : Board} {s : Step} (ha : b.Admits s) :
    (b.after s).machine.paused = (b.response s).1.paused :=
  congrArg Control.paused (b.control_after ha)

theorem Board.timer_after {b : Board} {s : Step} (ha : b.Admits s) :
    (b.after s).timer = (b.action s).rearm b.timer :=
  congrArg Work.timer (b.work_after ha)

theorem Board.scans_after {b : Board} {s : Step} (ha : b.Admits s) :
    (b.after s).scans = s.left b.scans ++
      if b.action s = .startScan then [{ b.nextScan with project := b.projectAfter s }] else [] :=
  congrArg Work.scans (b.work_after ha)

theorem Board.scansStarted_after {b : Board} {s : Step} (ha : b.Admits s) :
    (b.after s).scansStarted = b.scansStarted + if b.action s = .startScan then 1 else 0 :=
  congrArg Work.started (b.work_after ha)

end ProblemBoard.Refresh
