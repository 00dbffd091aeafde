import ProblemBoard.Proofs.Refresh.SingleFlight

/-!
# Shutdowns

A shutdown cancels the armed timer and the scans that run, and tells the machine nothing of it.
Whoever still holds the board can go on to use it, and then the machine counts on work that was
cancelled.  `Life` follows a board through shutdowns and keeps that work beside it.  With the
cancelled work put back, a life is a run (`Life.run`): nothing but the timer and the scans tells a
board that was shut down from one that was not.

So the machine agrees with the work under way exactly as long as no cancelled work is counted on.
A cancelled timer keeps no request from starting a scan.  A cancelled scan does, until it finishes
after all; if it never does, no scan starts any more (`Run.stalled`).
-/

namespace ProblemBoard.Refresh

/-! ## Cancelled work -/

/-- Work that was cancelled and that the machine still counts on. -/
structure Cancelled where
  timer : Option Timer
  scans : List Scan
  deriving DecidableEq, Repr

/-- The cancelled timer after an action.  A new timer, a scan or a pause takes its place. -/
def Action.outlived (timer : Option Timer) : Action → Option Timer
  | .none => timer
  | .queued => timer
  | .armTimer _ _ => .none
  | .startScan => .none
  | .paused => .none

namespace Cancelled

def nothing : Cancelled := ⟨none, []⟩

/-- What is still counted on after a step of a board. -/
def after (c : Cancelled) (b : Board) (s : Step) : Cancelled :=
  ⟨(b.action s).outlived c.timer, s.left c.scans⟩

/-- What is counted on after a shutdown of a board. -/
def shutdown (c : Cancelled) (b : Board) : Cancelled := ⟨b.timer <|> c.timer, c.scans ++ b.scans⟩

end Cancelled

/-- The board with the cancelled work under way again. -/
def Board.restore (b : Board) (c : Cancelled) : Board :=
  { b with timer := b.timer <|> c.timer, scans := c.scans ++ b.scans }

/-- The lives of a board: what can happen to it when it may be shut down, with the work that was
cancelled by then.  A scan whose cancellation came too late still finishes. -/
inductive Life (b₀ : Board) : Cancelled → Board → Prop where
  | refl : Life b₀ .nothing b₀
  | step {c : Cancelled} {b : Board} (s : Step) :
      Life b₀ c b → (b.restore c).Admits s → Life b₀ (c.after b s) (b.after s)
  | deliver {c : Cancelled} {b : Board} {rest : List Effect} {flushing : Bool} :
      Life b₀ c b → rest <:+ b.effects → Life b₀ c { b with effects := rest, flushing }
  | shutdown {c : Cancelled} {b : Board} : Life b₀ c b → Life b₀ (c.shutdown b) b.shutdown

/-- The machine agrees with the work under way: what it waits for will come. -/
structure Board.Grounded (b : Board) : Prop where
  /-- It scans only while a scan runs. -/
  scanning : b.machine.phase = .scanning → b.scans ≠ []
  /-- It waits only while a timer is armed. -/
  debouncing : b.machine.phase = .debouncing → b.timer ≠ none

/-- A step that tells the machine nothing changes nothing of what it counts on. -/
theorem Cancelled.after_of_silent {c : Cancelled} {b : Board} {s : Step}
    (h : b.signal s = none) : c.after b s = c := by
  rw [Cancelled.after, b.left_of_silent h, Board.action, b.response_of_silent h]
  rfl

/-! ## Steps with the cancelled work put back -/

section
variable (b : Board) (c : Cancelled)

@[simp] theorem Board.restore_nothing : b.restore .nothing = b := by
  simp [Board.restore, Cancelled.nothing]

@[simp] theorem Board.restore_shutdown : b.shutdown.restore (c.shutdown b) = b.restore c := by
  simp [Board.restore, Board.shutdown, Cancelled.shutdown]

theorem Board.restore_apply (a : Action) :
    (b.restore c).apply a = (b.apply a).restore ⟨a.outlived c.timer, c.scans⟩ := by
  cases a <;>
    simp [Board.apply, Board.restore, Action.outlived, Board.spawnScan, Board.push,
      Board.clearResults]

theorem Board.restore_transition (f : Machine → Machine × Action) :
    (b.restore c).transition f =
      (b.transition f).restore ⟨(f b.machine).2.outlived c.timer, c.scans⟩ :=
  Board.restore_apply { b with machine := (f b.machine).1 } c _

theorem Board.restore_timerFired (g : Nat) :
    (b.restore c).timerFired g = (b.timerFired g).restore (c.after b (.timerFired g)) := by
  have hfired : ∀ (m : Machine) (a : Action), a = .none ∨ a = .startScan →
      Board.apply { b.restore c with
          machine := m, timer := if a = .none then (b.restore c).timer else none } a =
        Board.restore
          (Board.apply { b with machine := m, timer := if a = .none then b.timer else none } a)
          ⟨a.outlived c.timer, c.scans⟩ := by
    rintro m a (rfl | rfl)
    · rfl
    · exact Board.restore_apply { b with machine := m, timer := none } ⟨none, c.scans⟩ .startScan
  exact hfired _ _ (b.machine.timerElapsed_turn g).action_of_elapsed

/-- What a scan ended in is shown alike. -/
theorem Board.restore_report (result : Except ScanError ScanResult) :
    (b.restore c).report result = (b.report result).restore c := by
  cases result with
  | error e => rfl
  | ok r =>
    unfold Board.report Board.publish
    dsimp only
    rw [Board.notifyFailures_eq, Board.notifyFailures_eq]
    rfl

theorem Board.restore_scanFinished (id : Nat) (result : Except ScanError ScanResult) :
    (b.restore c).scanFinished id result =
      (b.scanFinished id result).restore (c.after b (.scanFinished id result)) := by
  let left : Cancelled := ⟨c.timer, c.scans.filter (·.id != id)⟩
  have hleft : (b.restore c).scans.filter (·.id != id) =
      left.scans ++ b.scans.filter (·.id != id) := List.filter_append _ _
  have hshown : ∀ (d : Board) (shown : Bool) (a : Action),
      (if shown then (d.restore left).report result else d.restore left).apply a =
        ((if shown then d.report result else d).apply a).restore
          ⟨a.outlived left.timer, left.scans⟩ := by
    intro d shown a
    rw [Board.restore_report]
    cases shown with
    | true => exact Board.restore_apply _ left a
    | false => exact Board.restore_apply _ left a
  unfold Board.scanFinished
  rw [hleft]
  exact hshown
    { b with machine := b.machine.scanFinished.1, scans := b.scans.filter (·.id != id) } _ _

theorem Board.restore_setMode (mode : GroupMode) :
    (b.restore c).setMode mode = (b.setMode mode).restore c := by
  symm
  unfold Board.setMode
  by_cases hm : mode = b.mode
  · rw [if_pos hm]
    exact (if_pos hm).symm
  · rw [if_neg hm]
    refine Eq.trans ?_ (if_neg hm).symm
    exact apply_ite (Board.restore · c) _ _ _

theorem Board.restore_navigate (move : Cursor.Move) :
    ((b.restore c).navigate move).1 = (b.navigate move).1.restore c := by
  unfold Board.navigate
  dsimp only [Board.restore]
  split
  · rfl
  · split <;> rfl

theorem Board.restore_resolutionLanded (r : Resolution) (project : Project) :
    (b.restore c).resolutionLanded r project =
      (b.resolutionLanded r project).restore (c.after b (.resolutionLanded r project)) := by
  by_cases h : r.revision = b.revision
  · have hr : b.action (.resolutionLanded r project) = b.machine.requestImmediate.2 := by
      rw [Board.action, Board.response, Board.signal_landed_of_eq h]
      rfl
    rw [Board.resolutionLanded_of_eq h, Board.resolutionLanded_of_eq (b := b.restore c) h,
      Cancelled.after, hr]
    exact Board.restore_transition
      { b with project, resolutions := b.resolutions.filter (·.revision != r.revision) } c
      Machine.requestImmediate
  · rw [Board.resolutionLanded_of_ne h, Board.resolutionLanded_of_ne (b := b.restore c) h,
      Cancelled.after_of_silent (Board.signal_landed_of_ne h project)]
    rfl

end

/-- With the cancelled work put back, a step is the same step. -/
theorem Board.restore_after (b : Board) (c : Cancelled) {s : Step}
    (hs : s ≠ .called .shutdown) :
    (b.restore c).after s = (b.after s).restore (c.after b s) := by
  cases s with
  | called d =>
    cases d with
    | requestRefresh => exact b.restore_transition c Machine.requestRefresh
    | requestImmediate => exact b.restore_transition c Machine.requestImmediate
    | setPaused paused => exact b.restore_transition c fun m => m.setPaused paused
    | togglePause => exact b.restore_transition c fun m => m.setPaused !b.machine.paused
    | isPaused | updateSettings | revalidate | project => rw [c.after_of_silent rfl]; rfl
    | setMode mode => rw [c.after_of_silent rfl]; exact b.restore_setMode c mode
    | regroupThen mode changed => rw [c.after_of_silent rfl]; exact b.restore_setMode c mode
    | refreshThen changed =>
      cases changed with
      | true => rw [c.after_of_silent rfl]; rfl
      | false => exact b.restore_transition c Machine.requestRefresh
    | navigate move => rw [c.after_of_silent rfl]; exact b.restore_navigate c move
    | shutdown => exact absurd rfl hs
  | timerFired g => exact b.restore_timerFired c g
  | scanFinished id result => exact b.restore_scanFinished c id result
  | resolutionLanded r project => exact b.restore_resolutionLanded c r project

/-! ## Lives -/

section
variable {b₀ b : Board} {c : Cancelled}

/-- With the cancelled work put back, a life is a run. -/
theorem Life.run (hl : Life b₀ c b) : ∃ h, Run b₀ h (b.restore c) := by
  induction hl with
  | refl => exact ⟨[], by rw [Board.restore_nothing]; exact .refl⟩
  | step s _ ha ih =>
    obtain ⟨h, hr⟩ := ih
    exact ⟨_, by rw [← Board.restore_after _ _ ha.ne_shutdown]; exact hr.step s ha⟩
  | deliver _ hsuffix ih =>
    obtain ⟨h, hr⟩ := ih
    exact ⟨h, hr.deliver hsuffix⟩
  | shutdown _ ih =>
    obtain ⟨h, hr⟩ := ih
    exact ⟨h, by rw [Board.restore_shutdown]; exact hr⟩

/-- Beside an armed timer no cancelled one is counted on. -/
theorem Life.timer (hl : Life b₀ c b) (h₀ : b₀.timer = none) : b.timer = none ∨ c.timer = none := by
  induction hl with
  | refl => exact .inl h₀
  | deliver _ _ ih => exact ih
  | shutdown => exact .inl rfl
  | @step c b s _ ha ih =>
    have ht : (b.after s).timer = (b.action s).rearm b.timer :=
      congrArg Work.timer (b.work_after_of_ne ha.ne_shutdown)
    rw [ht, Cancelled.after]
    cases b.action s with
    | none | queued => exact ih
    | armTimer => exact .inr rfl
    | startScan | paused => exact .inl rfl

/-- While the machine scans and no scan runs, none starts, since only a scan that runs can
finish. -/
theorem Run.stalled {h : List Moment} (hr : Run b₀ h b) (hs : b₀.scans = [])
    (hp : b₀.machine.phase = .scanning) :
    b.scans = [] ∧ b.machine.phase = .scanning ∧ ∀ m ∈ h, m.action ≠ .startScan := by
  induction hr with
  | refl => exact ⟨hs, hp, fun _ hm => absurd hm List.not_mem_nil⟩
  | deliver _ _ ih => exact ih
  | @step h b s _ ha ih =>
    obtain ⟨hs, hp, hm⟩ := ih
    have hact : b.action s ≠ .startScan := fun h => b.phase_of_startScan h hp
    have hleft : s.left b.scans = [] :=
      List.eq_nil_iff_forall_not_mem.2 fun t ht => by
        have := Step.mem_left ht
        rw [hs] at this
        cases this
    have hphase : (b.response s).1.phase = .scanning := by
      cases hx : b.signal s with
      | none => rw [b.response_of_silent hx]; exact hp
      | some x =>
        refine (b.turn hx).scanning hp ?_
        rintro rfl
        obtain ⟨id, result, rfl⟩ := b.scanFinished_of_signal hx
        obtain ⟨t, ht, -⟩ := ha
        rw [hs] at ht
        cases ht
    refine ⟨?_, ?_, ?_⟩
    · rw [b.scans_after ha, hleft, if_neg hact]
      rfl
    · exact (congrArg Control.phase (b.control_after ha)).trans hphase
    · intro m hmem
      rcases List.mem_cons.1 hmem with rfl | hmem
      · exact hact
      · exact hm m hmem

end

/-! ## The machine and the work under way -/

section
variable {project : Project} {settings : Settings} {b : Board} {c : Cancelled}

theorem Life.coherent (hl : Life (.start project settings) c b) : Coherent (b.restore c).work := by
  obtain ⟨h, hr⟩ := hl.run
  exact hr.coherent

/-- The machine scans while a scan runs, or one that was cancelled is counted on. -/
theorem Life.scanning_iff (hl : Life (.start project settings) c b) :
    b.machine.phase = .scanning ↔ b.scans ≠ [] ∨ c.scans ≠ [] := by
  have h : b.machine.phase = .scanning ↔ c.scans ++ b.scans ≠ [] := hl.coherent.scanning_iff
  rw [h, Ne, List.append_eq_nil_iff, Decidable.not_and_iff_not_or_not, or_comm]

/-- The machine waits while a timer is armed, or one that was cancelled is counted on. -/
theorem Life.debouncing_iff (hl : Life (.start project settings) c b) :
    b.machine.phase = .debouncing ↔ b.timer ≠ none ∨ c.timer ≠ none := by
  have h : b.machine.phase = .debouncing ↔ (b.timer <|> c.timer) ≠ none :=
    hl.coherent.debouncing_iff
  rw [h, Ne, Option.orElse_eq_orElse, Option.orElse_eq_or, Option.or_eq_none_iff,
    Decidable.not_and_iff_not_or_not]

/-- Beside a cancelled scan that is counted on none runs. -/
theorem Life.scans_eq_nil (hl : Life (.start project settings) c b) (h : c.scans ≠ []) :
    b.scans = [] := by
  obtain ⟨s, hs⟩ := List.exists_mem_of_ne_nil _ h
  have hone : c.scans ++ b.scans = [s] :=
    (hl.coherent.scans_of_mem (List.mem_append_left _ hs)).2
  exact (List.append_eq_singleton_iff.1 hone).elim (fun hl => absurd hl.1 h) fun hr => hr.2

/-- A shutdown leaves nothing to count on exactly when nothing was under way. -/
theorem Life.shutdown_eq_nothing_iff (hl : Life (.start project settings) c b) :
    c.shutdown b = .nothing ↔ b.machine.phase = .idle := by
  have h : b.machine.phase = .idle ↔ (b.timer <|> c.timer) = none ∧ c.scans ++ b.scans = [] :=
    hl.coherent.idle_iff
  rw [h, Cancelled.shutdown, Cancelled.nothing, Cancelled.mk.injEq]

/-- The machine agrees with the work under way exactly when it counts on nothing else. -/
theorem Life.grounded_iff (hl : Life (.start project settings) c b) :
    b.Grounded ↔ c = .nothing := by
  constructor
  · rintro ⟨hscanning, hdebouncing⟩
    have hscans : c.scans = [] := by
      refine Decidable.byContradiction fun h => ?_
      exact hscanning (hl.scanning_iff.2 (.inr h)) (hl.scans_eq_nil h)
    have htimer : c.timer = none := by
      refine Decidable.byContradiction fun h => ?_
      exact (hl.timer rfl).elim (hdebouncing (hl.debouncing_iff.2 (.inr h))) h
    rw [Cancelled.nothing, ← htimer, ← hscans]
  · rintro rfl
    exact ⟨fun hp => (hl.scanning_iff.1 hp).resolve_right fun h => h rfl,
      fun hp => (hl.debouncing_iff.1 hp).resolve_right fun h => h rfl⟩

/-- A request that does not wait starts a scan exactly when none runs and none is counted on. -/
theorem Life.startScan_iff (hl : Life (.start project settings) c b)
    (hp : b.machine.paused = false) :
    b.action (.called .requestImmediate) = .startScan ↔ b.scans = [] ∧ c.scans = [] := by
  have hphase : b.machine.phase ≠ .scanning ↔ b.scans = [] ∧ c.scans = [] := by
    rw [Ne, hl.scanning_iff]
    simp
  rw [← hphase]
  have ha : b.action (.called .requestImmediate) = b.machine.requestImmediate.2 := rfl
  rw [ha]
  unfold Machine.requestImmediate
  by_cases hs : b.machine.phase = .scanning
  · simp [hp, hs, Machine.enqueue]
  · simp [hp, hs, Machine.begin]

/-- After a shutdown no timer is armed and no scan runs, but the machine goes on as if nothing had
been cancelled: with the cancelled work put back, the board is one that a run without shutdowns
leads to.  Through any number of shutdowns the machine scans or waits for work under way or for
cancelled work.  So it agrees with the work under way exactly when it counts on nothing that was
cancelled, as after a shutdown of an idle board.  Without a pause, a request that does not wait
starts a scan exactly when no scan runs and no cancelled one is counted on.  And while a cancelled
scan is counted on and does not finish after all, no step starts a scan. -/
theorem cancelled_work_counted (hl : Life (.start project settings) c b) :
    b.shutdown.timer = none ∧ b.shutdown.scans = [] ∧
      (c.shutdown b = .nothing ↔ b.machine.phase = .idle) ∧
      (∃ h, Run (.start project settings) h (b.restore c)) ∧
      (b.machine.phase = .scanning ↔ b.scans ≠ [] ∨ c.scans ≠ []) ∧
      (b.machine.phase = .debouncing ↔ b.timer ≠ none ∨ c.timer ≠ none) ∧
      (b.Grounded ↔ c = .nothing) ∧
      (b.machine.paused = false →
        (b.action (.called .requestImmediate) = .startScan ↔ b.scans = [] ∧ c.scans = [])) ∧
      (c.scans ≠ [] → ∀ h b', Run b h b' →
        b'.scans = [] ∧ b'.machine.phase = .scanning ∧ ∀ m ∈ h, m.action ≠ .startScan) := by
  refine ⟨rfl, rfl, hl.shutdown_eq_nothing_iff, hl.run, hl.scanning_iff, hl.debouncing_iff,
    hl.grounded_iff, hl.startScan_iff, ?_⟩
  intro hc h b' hr
  exact hr.stalled (hl.scans_eq_nil hc) (hl.scanning_iff.2 (.inr hc))

end

/-- A board is shut down while its first scan runs: the next request is only remembered, and no
later one starts a scan. -/
theorem cancelled_work_counted_request :
    ∃ c b, Life (.start (.bare ⟨"/work"⟩) .default) c b ∧
      c.scans.length = 1 ∧ b.machine.paused = false ∧ b.scans = [] ∧ b.machine.pending = true ∧
      ¬b.Grounded ∧ b.action (.called .requestImmediate) ≠ .startScan ∧
      ∀ h b', Run b h b' → ∀ m ∈ h, m.action ≠ .startScan := by
  have hl : Life (.start (.bare ⟨"/work"⟩) .default) _ _ :=
    (Life.refl.step (.called .requestImmediate) trivial).shutdown.step
      (.called .requestImmediate) trivial
  obtain ⟨-, -, -, -, -, -, hg, hi, hn⟩ := cancelled_work_counted hl
  refine ⟨_, _, hl, rfl, rfl, rfl, rfl, ?_, ?_, ?_⟩
  · intro h
    exact absurd (congrArg Cancelled.scans (hg.1 h)) (by decide)
  · intro h
    exact absurd ((hi rfl).1 h).2 (by decide)
  · intro h b' hr
    exact (hn (by decide) h b' hr).2.2

/-- A board is shut down while its first scan runs: there is no pause, no timer is armed and no scan
runs, but the machine scans, and a request that does not wait starts nothing. -/
theorem scanning_without_scan :
    let running := (Board.start (.bare ⟨"/work"⟩) .default).after (.called .requestImmediate)
    let b := running.after (.called .shutdown)
    (∃ c, Life (.start (.bare ⟨"/work"⟩) .default) c b) ∧
      b.timer = none ∧ b.scans = [] ∧ b.machine.phase = .scanning ∧ ¬b.Grounded ∧
      b.machine.paused = false ∧ b.action (.called .requestImmediate) = .queued ∧
      (b.after (.called .requestImmediate)).scans = [] := by
  refine ⟨⟨_, (Life.refl.step (.called .requestImmediate) trivial).shutdown⟩,
    rfl, rfl, rfl, ?_, rfl, rfl, rfl⟩
  intro h
  exact h.scanning rfl rfl

end ProblemBoard.Refresh
