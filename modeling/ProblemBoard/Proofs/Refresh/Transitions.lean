import ProblemBoard.Refresh.Machine

/-!
# Transitions of the machine

A *signal* is what the machine is told: a request, a pause, a timer that fired, a scan that
finished.  `Machine.receive` answers a signal with the next machine and the action that
follows.  `Turn` lists the transitions one by one, each with the state in which it is taken,
and `Machine.receive_turn` says that there are no others.  What holds along a run is proved
by cases on a turn.

Only a part of the machine decides: its *control*.  The waiting times and the cursor have no
say in what is started or cancelled.
-/

namespace ProblemBoard.Refresh

/-! ## Signals -/

/-- What a machine can be told. -/
inductive Signal where
  | refresh
  /-- A refresh is requested that does not wait. -/
  | immediate
  | pause (paused : Bool)
  /-- A timer fired that was armed with a number. -/
  | elapsed (generation : Nat)
  | finished
  deriving DecidableEq, Repr

/-- What a machine makes of a signal, and the action that follows. -/
def Machine.receive (m : Machine) : Signal → Machine × Action
  | .refresh => m.requestRefresh
  | .immediate => m.requestImmediate
  | .pause paused => m.setPaused paused
  | .elapsed generation => m.timerElapsed generation
  | .finished => (m.scanFinished.1, m.scanFinished.2.next)

/-! ## The table of transitions -/

/-- The transitions of a machine: what it is told, what it becomes, what follows. -/
inductive Turn (m : Machine) : Signal → Machine → Action → Prop where
  /-- During a pause a request is not heard. -/
  | mutedRefresh : m.paused = true → Turn m .refresh m .none
  | mutedImmediate : m.paused = true → Turn m .immediate m .none
  /-- A request that comes while a scan runs is remembered. -/
  | queueRefresh : m.paused = false → m.phase = .scanning →
      Turn m .refresh { m with pending := true } .queued
  | queueImmediate : m.paused = false → m.phase = .scanning →
      Turn m .immediate { m with pending := true } .queued
  | arm : m.paused = false → m.phase ≠ .scanning →
      Turn m .refresh { m with generation := m.generation + 1, phase := .debouncing }
        (.armTimer (m.generation + 1) m.timings.debounce)
  | start : m.paused = false → m.phase ≠ .scanning →
      Turn m .immediate { m with generation := m.generation + 1, phase := .scanning } .startScan
  /-- A timer that was replaced or cancelled starts nothing. -/
  | stale {g : Nat} : m.paused = true ∨ m.phase ≠ .debouncing ∨ g ≠ m.generation →
      Turn m (.elapsed g) m .none
  | fire : m.paused = false → m.phase = .debouncing →
      Turn m (.elapsed m.generation)
        { m with generation := m.generation + 1, phase := .scanning } .startScan
  /-- A pause that is no news. -/
  | still : Turn m (.pause m.paused) m .none
  | pauseIdle : m.paused = false → m.phase = .idle →
      Turn m (.pause true) { m with paused := true, pending := false, cursor := .start } .paused
  | pauseDebouncing : m.paused = false → m.phase = .debouncing →
      Turn m (.pause true)
        { m with
          paused := true, pending := false, cursor := .start
          generation := m.generation + 1, phase := .idle } .paused
  | pauseScanning : m.paused = false → m.phase = .scanning →
      Turn m (.pause true)
        { m with paused := true, pending := false, cursor := .start, discard := true } .paused
  /-- The scan that ran into the pause still runs: one more comes after it. -/
  | resumeScanning : m.paused = true → m.phase = .scanning →
      Turn m (.pause false) { m with paused := false, pending := true } .queued
  | resume : m.paused = true → m.phase ≠ .scanning →
      Turn m (.pause false)
        { m with paused := false, generation := m.generation + 1, phase := .scanning } .startScan
  | settle : m.paused = true ∨ m.pending = false →
      Turn m .finished { m with discard := false, phase := .idle, pending := false } .none
  | followUp : m.paused = false → m.pending = true →
      Turn m .finished
        { m with
          discard := false, phase := .debouncing, pending := false
          generation := m.generation + 1 }
        (.armTimer (m.generation + 1) m.timings.followUp)

theorem Machine.requestRefresh_turn (m : Machine) :
    Turn m .refresh m.requestRefresh.1 m.requestRefresh.2 := by
  unfold Machine.requestRefresh
  split
  · next hp => exact .mutedRefresh hp
  · next hp =>
    have hp : m.paused = false := by simpa using hp
    split
    · next hs => exact .queueRefresh hp hs
    · next hs => exact .arm hp hs

theorem Machine.requestImmediate_turn (m : Machine) :
    Turn m .immediate m.requestImmediate.1 m.requestImmediate.2 := by
  unfold Machine.requestImmediate
  split
  · next hp => exact .mutedImmediate hp
  · next hp =>
    have hp : m.paused = false := by simpa using hp
    split
    · next hs => exact .queueImmediate hp hs
    · next hs => exact .start hp hs

theorem Machine.timerElapsed_turn (m : Machine) (g : Nat) :
    Turn m (.elapsed g) (m.timerElapsed g).1 (m.timerElapsed g).2 := by
  unfold Machine.timerElapsed
  split
  · next h =>
    apply Turn.stale
    simpa [or_assoc] using h
  · next h =>
    simp only [Bool.or_eq_true, bne_iff_ne, not_or, Bool.not_eq_true,
      Decidable.not_not] at h
    obtain ⟨⟨hp, hd⟩, rfl⟩ := h
    exact .fire hp hd

theorem Machine.pause_turn {m : Machine} (hp : m.paused = false) :
    Turn m (.pause true) m.pause.1 m.pause.2 := by
  unfold Machine.pause
  cases hph : m.phase with
  | idle => simpa [hph] using Turn.pauseIdle hp hph
  | debouncing => simpa [hph] using Turn.pauseDebouncing hp hph
  | scanning => simpa [hph] using Turn.pauseScanning hp hph

theorem Machine.resume_turn {m : Machine} (hp : m.paused = true) :
    Turn m (.pause false) m.resume.1 m.resume.2 := by
  unfold Machine.resume
  dsimp only
  split
  · next hs => exact .resumeScanning hp hs
  · next hs => exact .resume hp hs

theorem Machine.setPaused_turn (m : Machine) (paused : Bool) :
    Turn m (.pause paused) (m.setPaused paused).1 (m.setPaused paused).2 := by
  unfold Machine.setPaused
  split
  · next h => exact h ▸ .still
  · next h =>
    cases paused with
    | true => exact m.pause_turn (by simpa using h)
    | false => exact m.resume_turn (by simpa using h)

theorem Machine.scanFinished_turn (m : Machine) :
    Turn m .finished m.scanFinished.1 m.scanFinished.2.next := by
  unfold Machine.scanFinished
  dsimp only
  split
  · next h =>
    simp only [Bool.and_eq_true, Bool.not_eq_true'] at h
    exact .followUp h.1 h.2
  · next h =>
    apply Turn.settle
    simpa [Classical.or_iff_not_imp_left] using h

/-- A machine takes no other transitions than those of the table. -/
theorem Machine.receive_turn (m : Machine) (x : Signal) :
    Turn m x (m.receive x).1 (m.receive x).2 := by
  cases x with
  | refresh => exact m.requestRefresh_turn
  | immediate => exact m.requestImmediate_turn
  | pause paused => exact m.setPaused_turn paused
  | elapsed g => exact m.timerElapsed_turn g
  | finished => exact m.scanFinished_turn

/-- A timer that fires starts a scan or nothing. -/
theorem Turn.action_of_elapsed {m m' : Machine} {g : Nat} {a : Action}
    (h : Turn m (.elapsed g) m' a) : a = .none ∨ a = .startScan := by
  cases h with
  | stale => exact .inl rfl
  | fire => exact .inr rfl

/-- When a scan finishes, at most a timer is armed. -/
theorem Turn.action_of_finished {m m' : Machine} {a : Action}
    (h : Turn m .finished m' a) : a = .none ∨ ∃ g d, a = .armTimer g d := by
  cases h with
  | settle => exact .inl rfl
  | followUp => exact .inr ⟨_, _, rfl⟩

theorem Turn.ne_of_finished {m m' : Machine} {a : Action} (h : Turn m .finished m' a) :
    a ≠ .startScan ∧ a ≠ .paused := by
  rcases h.action_of_finished with rfl | ⟨g, d, rfl⟩ <;> simp

/-- The result of a scan is shown unless there is a pause or the scan ran into one. -/
theorem Machine.scanFinished_publish (m : Machine) :
    m.scanFinished.2.publish = (!m.discard && !m.paused) := by
  unfold Machine.scanFinished
  dsimp only
  split <;> rfl

/-- No pause begins or ends with a scan. -/
theorem Machine.scanFinished_paused (m : Machine) : m.scanFinished.1.paused = m.paused := by
  unfold Machine.scanFinished
  dsimp only
  split <;> rfl

theorem Machine.scanFinished_cursor (m : Machine) : m.scanFinished.1.cursor = m.cursor := by
  unfold Machine.scanFinished
  dsimp only
  split <;> rfl

/-- A pause puts the cursor back, and no other turn moves it. -/
theorem Turn.cursor {m m' : Machine} {x : Signal} {a : Action} (h : Turn m x m' a) :
    (a = .paused ∧ m'.cursor = .start) ∨
      (a ≠ .paused ∧ m'.cursor = m.cursor ∧ (m'.paused = true → m.paused = true)) := by
  cases h with
  | pauseIdle | pauseDebouncing | pauseScanning => exact .inl ⟨rfl, rfl⟩
  | resumeScanning | resume => exact .inr ⟨nofun, rfl, nofun⟩
  | mutedRefresh | mutedImmediate | queueRefresh | queueImmediate | arm | start | stale | fire
  | still | settle | followUp => exact .inr ⟨nofun, rfl, id⟩

/-- Numbers are never given back. -/
theorem Turn.generation_le {m m' : Machine} {x : Signal} {a : Action} (h : Turn m x m' a) :
    m.generation ≤ m'.generation := by
  cases h <;> simp

/-- A timer gets the next number, and the machine stays at it. -/
theorem Turn.generation_of_armTimer {m m' : Machine} {x : Signal} {g d : Nat}
    (h : Turn m x m' (.armTimer g d)) : g = m.generation + 1 ∧ m'.generation = g := by
  cases h <;> exact ⟨rfl, rfl⟩

/-- A scan starts only when none runs. -/
theorem Turn.phase_of_startScan {m m' : Machine} {x : Signal}
    (h : Turn m x m' .startScan) : m.phase ≠ .scanning := by
  cases h with
  | start _ hs => exact hs
  | fire _ hs => simp [hs]
  | resume _ hs => exact hs

/-- A machine that scans goes on until the scan finishes. -/
theorem Turn.scanning {m m' : Machine} {x : Signal} {a : Action} (h : Turn m x m' a)
    (hs : m.phase = .scanning) (hx : x ≠ .finished) : m'.phase = .scanning := by
  cases h with
  | mutedRefresh | mutedImmediate | queueRefresh | queueImmediate | stale | still
  | pauseScanning | resumeScanning => exact hs
  | start | fire | resume => rfl
  | arm _ hn => exact absurd hs hn
  | pauseIdle _ hi => rw [hs] at hi; cases hi
  | pauseDebouncing _ hd => rw [hs] at hd; cases hd
  | settle | followUp => exact absurd rfl hx

/-! ## Control -/

/-- The part of a machine that decides. -/
structure Control where
  phase : Phase
  paused : Bool
  pending : Bool
  discard : Bool
  generation : Nat
  deriving DecidableEq, Repr

/-- The part of a machine that decides. -/
def Machine.control (m : Machine) : Control :=
  ⟨m.phase, m.paused, m.pending, m.discard, m.generation⟩

@[simp] theorem Machine.control_phase (m : Machine) : m.control.phase = m.phase := rfl

@[simp] theorem Machine.control_paused (m : Machine) : m.control.paused = m.paused := rfl

@[simp] theorem Machine.control_pending (m : Machine) : m.control.pending = m.pending := rfl

@[simp] theorem Machine.control_discard (m : Machine) : m.control.discard = m.discard := rfl

@[simp] theorem Machine.control_generation (m : Machine) :
    m.control.generation = m.generation := rfl

end ProblemBoard.Refresh
