import ProblemBoard.Proofs.Refresh.Work

/-!
# Single flight

One scan at a time, and one timer.  `Coherent` says how the phase of the machine, the armed
timer and the running scans belong together.  A turn of the machine keeps it, so every run
does.  A timer that was replaced or cancelled may still fire: it finds another number or
another phase and leaves the board as it is.
-/

namespace ProblemBoard.Refresh

/-- The phase, the timer and the scans of a board agree. -/
structure Coherent (w : Work) : Prop where
  /-- One scan runs while the machine scans, and otherwise none. -/
  scans : w.scans.length = if w.control.phase = .scanning then 1 else 0
  /-- A timer is armed while the machine waits, with the number the machine is at. -/
  timer : w.timer.map Timer.generation =
    if w.control.phase = .debouncing then some w.control.generation else none
  /-- During a pause nothing is waited for and no request is remembered. -/
  paused : w.control.paused = true → w.control.phase ≠ .debouncing ∧ w.control.pending = false
  /-- A request is remembered only while a scan runs. -/
  pending : w.control.pending = true → w.control.phase = .scanning
  /-- Only a running scan can be dropped. -/
  discard : w.control.discard = true → w.control.phase = .scanning

/-! ## Consequences of coherence -/

theorem Coherent.scans_eq_nil {b : Board} (hc : Coherent b.work)
    (h : b.machine.phase ≠ .scanning) : b.scans = [] := by
  have hl := hc.scans
  rw [if_neg (by simpa using h)] at hl
  exact List.eq_nil_of_length_eq_zero hl

/-- A running scan is the only one. -/
theorem Coherent.scans_of_mem {b : Board} (hc : Coherent b.work) {s : Scan} (h : s ∈ b.scans) :
    b.machine.phase = .scanning ∧ b.scans = [s] := by
  by_cases hp : b.machine.phase = .scanning
  · have hl := hc.scans
    rw [if_pos (by simpa using hp)] at hl
    obtain ⟨t, ht⟩ := List.length_eq_one_iff.1 hl
    have ht : b.scans = [t] := ht
    rw [ht] at h ⊢
    rw [List.mem_singleton.1 h]
    exact ⟨hp, rfl⟩
  · rw [hc.scans_eq_nil hp] at h
    cases h

theorem Coherent.timer_eq_none {b : Board} (hc : Coherent b.work)
    (h : b.machine.phase ≠ .debouncing) : b.timer = none := by
  have ht := hc.timer
  rw [if_neg (by simpa using h)] at ht
  simpa using ht

theorem Coherent.timer_of_debouncing {b : Board} (hc : Coherent b.work)
    (h : b.machine.phase = .debouncing) :
    ∃ t, b.timer = some t ∧ t.generation = b.machine.generation := by
  have ht := hc.timer
  rw [if_pos (by simpa using h)] at ht
  exact Option.map_eq_some_iff.1 ht

/-- An armed timer is waited for, and carries the number the machine is at. -/
theorem Coherent.debouncing_of_timer {b : Board} (hc : Coherent b.work) {t : Timer}
    (h : b.timer = some t) :
    b.machine.phase = .debouncing ∧ t.generation = b.machine.generation := by
  by_cases hp : b.machine.phase = .debouncing
  · obtain ⟨t', ht', hg⟩ := hc.timer_of_debouncing hp
    rw [h] at ht'
    exact ⟨hp, by rw [Option.some.inj ht', hg]⟩
  · rw [hc.timer_eq_none hp] at h
    cases h

theorem Coherent.scanning_iff {b : Board} (hc : Coherent b.work) :
    b.machine.phase = .scanning ↔ b.scans ≠ [] := by
  constructor
  · intro hp hn
    have hl := hc.scans
    rw [if_pos (by simpa using hp), b.work_scans, hn] at hl
    cases hl
  · intro hn
    exact Decidable.byContradiction fun hp => hn (hc.scans_eq_nil hp)

theorem Coherent.debouncing_iff {b : Board} (hc : Coherent b.work) :
    b.machine.phase = .debouncing ↔ b.timer ≠ none := by
  constructor
  · intro hp hn
    obtain ⟨t, ht, -⟩ := hc.timer_of_debouncing hp
    rw [hn] at ht
    cases ht
  · intro hn
    exact Decidable.byContradiction fun hp => hn (hc.timer_eq_none hp)

/-- An idle machine has nothing under way. -/
theorem Coherent.idle_iff {b : Board} (hc : Coherent b.work) :
    b.machine.phase = .idle ↔ b.timer = none ∧ b.scans = [] := by
  have hs := hc.scanning_iff
  have hd := hc.debouncing_iff
  cases hp : b.machine.phase with
  | idle => simpa [hp, and_comm] using And.intro hs hd
  | debouncing => simpa [hp] using fun hn _ => absurd hn (hd.1 hp)
  | scanning => simpa [hp] using fun _ hn => absurd hn (hs.1 hp)

/-! ## Steps keep coherence -/

theorem coherent_start (project : Project) (settings : Settings) :
    Coherent (Board.start project settings).work := by
  constructor <;> simp [Board.start, Machine.start]

theorem Board.left_of_signal {b : Board} {s : Step} {x : Signal} (h : b.signal s = some x)
    (hx : x ≠ .finished) : s.left b.scans = b.scans := by
  cases s with
  | scanFinished id result => exact absurd (Option.some.inj h).symm hx
  | _ => rfl

/-- When a scan finishes it was the only one, and none is left. -/
theorem Coherent.left_of_finished {b : Board} {s : Step} (hc : Coherent b.work)
    (ha : b.Admits s) (h : b.signal s = some .finished) :
    b.machine.phase = .scanning ∧ s.left b.scans = [] := by
  obtain ⟨id, result, rfl⟩ := b.scanFinished_of_signal h
  obtain ⟨t, ht, rfl, -⟩ := ha
  obtain ⟨hp, hs⟩ := hc.scans_of_mem ht
  exact ⟨hp, by simp [Step.left, hs]⟩

/-- A scan that starts is the only one, since none ran. -/
theorem Coherent.started {b : Board} {m' : Machine} {x : Signal} (hc : Coherent b.work)
    (ht : Turn b.machine x m' .startScan) (s : Scan) (n : Nat) :
    Coherent ⟨m'.control, none, b.scans ++ [s], n⟩ := by
  have hs := hc.scans_eq_nil ht.phase_of_startScan
  cases ht with
  | start hp | fire hp | resume hp =>
    exact ⟨by simp [hs], rfl, by simp [hp], fun _ => rfl, fun _ => rfl⟩

/-- When the only scan finishes, a request that was remembered makes the machine wait. -/
theorem Coherent.finished {b : Board} {m' : Machine} {a : Action} (hc : Coherent b.work)
    (ht : Turn b.machine .finished m' a) (hs : b.machine.phase = .scanning) (n : Nat) :
    Coherent ⟨m'.control, a.rearm b.timer, [], n⟩ := by
  cases ht with
  | settle =>
    have ht : b.timer = none := hc.timer_eq_none (by simp [hs])
    exact ⟨rfl, by simp [Action.rearm, ht], by simp, by simp, by simp⟩
  | followUp hp => exact ⟨rfl, rfl, by simp [hp], by simp, by simp⟩

/-- Any other signal leaves the scans alone. -/
theorem Coherent.heard {b : Board} {m' : Machine} {x : Signal} {a : Action}
    (hc : Coherent b.work) (ht : Turn b.machine x m' a) (hx : x ≠ .finished)
    (ha : a ≠ .startScan) (n : Nat) : Coherent ⟨m'.control, a.rearm b.timer, b.scans, n⟩ := by
  cases ht with
  | mutedRefresh | mutedImmediate | stale | still =>
    exact ⟨hc.scans, hc.timer, hc.paused, hc.pending, hc.discard⟩
  | queueRefresh hp hs | queueImmediate hp hs | resumeScanning hp hs =>
    exact ⟨hc.scans, hc.timer, by simp [hp], fun _ => hs, hc.discard⟩
  | arm hp hs =>
    exact ⟨by simp [hc.scans_eq_nil hs], rfl, by simp [hp],
      fun h => absurd (hc.pending h) hs, fun h => absurd (hc.discard h) hs⟩
  | pauseIdle hp hs | pauseDebouncing hp hs =>
    have hn : b.machine.phase ≠ .scanning := by simp [hs]
    exact ⟨by simp [hc.scans_eq_nil hn, hs], by simp [Action.rearm, hs], by simp [hs], by simp,
      fun h => absurd (hc.discard h) hn⟩
  | pauseScanning hp hs =>
    exact ⟨hc.scans, by simp [Action.rearm, hs], by simp [hs], by simp, fun _ => hs⟩
  | start | fire | resume => exact absurd rfl ha
  | settle | followUp => exact absurd rfl hx

theorem Coherent.after {b : Board} {s : Step} (hc : Coherent b.work) (ha : b.Admits s) :
    Coherent (b.after s).work := by
  rw [b.work_after ha]
  cases hx : b.signal s with
  | none => rw [b.workAfter_of_silent hx]; exact hc
  | some x =>
    have ht := b.turn hx
    by_cases hf : x = .finished
    · subst hf
      obtain ⟨hs, hl⟩ := hc.left_of_finished ha hx
      rw [b.workAfter_of_ne ht.ne_of_finished.1, hl]
      exact hc.finished ht hs _
    · have hl := b.left_of_signal hx hf
      by_cases hst : b.action s = .startScan
      · rw [b.workAfter_of_startScan hst, hl]
        rw [hst] at ht
        exact hc.started ht _ _
      · rw [b.workAfter_of_ne hst, hl]
        exact hc.heard ht hf hst _

/-- A scan that finishes leaves, and nothing else does. -/
theorem Coherent.length_left {b : Board} {s : Step} (hc : Coherent b.work) (ha : b.Admits s) :
    b.scans.length = (s.left b.scans).length + if Moment.finishes ⟨b, s⟩ then 1 else 0 := by
  cases s with
  | scanFinished id result =>
    have hl := (hc.left_of_finished ha rfl).2
    obtain ⟨t, ht, -⟩ := ha
    rw [hl, (hc.scans_of_mem ht).2]
    rfl
  | _ => rfl

/-- A timer that is not the armed one changes nothing when it fires. -/
theorem Board.timerFired_of_stale {b : Board} {g : Nat}
    (h : g ≠ b.machine.generation ∨ b.machine.phase ≠ .debouncing) : b.timerFired g = b := by
  have hi : b.machine.timerElapsed g = (b.machine, .none) := by
    unfold Machine.timerElapsed
    rw [if_pos]
    rcases h with h | h <;> simp [h]
  simp [Board.timerFired, hi, Board.apply]

/-! ## The numbers of the timers -/

/-- Timers with rising numbers up to a given one, the last of which waits if any does. -/
structure Rising (ts : List Timer) (generation : Nat) (waiting : Option Timer) : Prop where
  /-- Each number is above those before. -/
  pairwise : (ts.map Timer.generation).Pairwise (· < ·)
  /-- No number is above the given one. -/
  le : ∀ t ∈ ts, t.generation ≤ generation
  /-- Only the last timer can wait. -/
  last : ∀ t, waiting = some t → ts.getLast? = some t

theorem rising_nil (generation : Nat) : Rising [] generation none where
  pairwise := .nil
  le := fun _ ht => absurd ht List.not_mem_nil
  last := nofun

/-- A new timer gets the next number. -/
theorem Rising.arm {ts : List Timer} {g : Nat} {w : Option Timer} (h : Rising ts g w)
    (delay : Nat) : Rising (ts ++ [⟨g + 1, delay⟩]) (g + 1) (some ⟨g + 1, delay⟩) where
  pairwise := by
    rw [List.map_append, List.pairwise_append]
    refine ⟨h.pairwise, List.pairwise_singleton _ _, ?_⟩
    intro n hn n' hn'
    obtain ⟨t, ht, rfl⟩ := List.mem_map.1 hn
    rw [List.mem_singleton.1 hn']
    exact Nat.lt_succ_of_le (h.le t ht)
  le := by
    intro t ht
    rcases List.mem_append.1 ht with ht | ht
    · exact Nat.le_succ_of_le (h.le t ht)
    · obtain rfl := List.mem_singleton.1 ht
      exact Nat.le_refl _
  last := fun _ ht => List.getLast?_concat.trans ht

theorem Rising.keep {ts : List Timer} {g g' : Nat} {w w' : Option Timer} (h : Rising ts g w)
    (hg : g ≤ g') (hw : ∀ t, w' = some t → w = some t) : Rising ts g' w' where
  pairwise := h.pairwise
  le := fun t ht => Nat.le_trans (h.le t ht) hg
  last := fun t ht => h.last t (hw t ht)

/-! ## Runs -/

section
variable {project : Project} {settings : Settings} {h : List Moment} {b : Board}

theorem Run.coherent (hr : Run (.start project settings) h b) : Coherent b.work := by
  induction hr with
  | refl => exact coherent_start project settings
  | step _ _ ha ih => exact ih.after ha
  | deliver _ _ ih => exact ih

/-- A scan runs on until it finishes. -/
theorem Run.scan_remains {b₀ : Board} {later earlier : List Moment} {m : Moment} {s : Scan}
    (hr : Run b₀ (later ++ m :: earlier) b) (hs : s ∈ m.board.scans)
    (hn : ∀ k ∈ m :: later, ∀ r, k.step ≠ .scanFinished s.id r) : s ∈ b.scans := by
  have hstep : ∀ k ∈ m :: later, k.board.Admits k.step → s ∈ k.board.scans →
      s ∈ (k.board.after k.step).scans := by
    intro k hk ha hs
    rw [k.board.scans_after ha]
    exact List.mem_append_left _ (Step.mem_left_of_ne hs (hn k hk))
  refine hr.since (P := fun b => s ∈ b.scans) (fun _ _ _ hs => hs) ?_ ?_
  · exact hstep m (.head _) hr.at_moment.2 hs
  · intro k hk _ _ ha hs
    exact hstep k (.tail _ hk) ha hs

/-- The scans that ran so far have numbers up to the number of scans that were started. -/
theorem Run.scan_id_le (hr : Run (.start project settings) h b) :
    (∀ s ∈ b.scans, s.id ≤ b.scansStarted) ∧
      ∀ m ∈ h, ∀ s ∈ m.board.scans, s.id ≤ b.scansStarted := by
  induction hr with
  | refl => simp [Board.start]
  | deliver _ _ ih => exact ih
  | @step _ b st _ ha ih =>
    obtain ⟨hnow, hpast⟩ := ih
    have hle : b.scansStarted ≤ (b.after st).scansStarted := by
      rw [b.scansStarted_after ha]
      exact Nat.le_add_right _ _
    constructor
    · intro s hs
      rw [b.scans_after ha] at hs
      rw [b.scansStarted_after ha]
      rcases List.mem_append.1 hs with hs | hs
      · exact Nat.le_add_right_of_le (hnow s (Step.mem_left hs))
      · split at hs
        · next hst =>
          rw [List.mem_singleton.1 hs, if_pos hst]
          exact Nat.le_refl _
        · cases hs
    · intro m hm s hs
      rcases List.mem_cons.1 hm with rfl | hm
      · exact Nat.le_trans (hnow s hs) hle
      · exact Nat.le_trans (hpast m hm s hs) hle

/-- Scans that were started and did not finish are those that run. -/
theorem Run.countP_startScan (hr : Run (.start project settings) h b) :
    h.countP Moment.starts = h.countP Moment.finishes + b.scans.length := by
  induction hr with
  | refl => rfl
  | deliver _ _ ih => exact ih
  | @step h b s hr ha ih =>
    have hl := hr.coherent.length_left ha
    rw [List.countP_cons, List.countP_cons, b.scans_after ha, List.length_append, ih, hl]
    simp only [Moment.starts_mk, decide_eq_true_eq, apply_ite List.length, List.length_singleton,
      List.length_nil]
    omega

theorem Run.rising (hr : Run (.start project settings) h b) :
    Rising (armed h) b.machine.generation b.timer := by
  induction hr with
  | refl => exact rising_nil 0
  | deliver _ _ ih => exact ih
  | @step h b s _ ha ih =>
    have hg := b.generation_le s
    have hg' : (b.after s).machine.generation = (b.response s).1.generation :=
      congrArg Control.generation (b.control_after ha)
    rw [armed_cons, Moment.action_mk, b.timer_after ha, hg']
    cases hact : b.action s with
    | armTimer g d =>
      obtain ⟨rfl, hm⟩ := b.generation_of_armTimer hact
      rw [hm]
      exact ih.arm d
    | none | queued =>
      simp only [Action.timer?, Option.toList_none, List.append_nil, Action.rearm]
      exact ih.keep hg fun _ ht => ht
    | startScan | paused =>
      simp only [Action.timer?, Option.toList_none, List.append_nil, Action.rearm]
      exact ih.keep hg (by simp)

/-- In every run one scan runs while the machine scans and none otherwise.  A timer is armed
while the machine waits and only then: it is the last one that was armed, and it carries the
number the machine is at.  The numbers of the armed timers rise, and a timer that fires with
another number, or in another phase, changes nothing. -/
theorem single_flight (hr : Run (.start project settings) h b) :
    b.scans.length = (if b.machine.phase = .scanning then 1 else 0) ∧
      h.countP Moment.starts = h.countP Moment.finishes + b.scans.length ∧
      (b.timer.isSome ↔ b.machine.phase = .debouncing) ∧
      (∀ t, b.timer = some t →
        t.generation = b.machine.generation ∧ (armed h).getLast? = some t) ∧
      ((armed h).map Timer.generation).Pairwise (· < ·) ∧
      ∀ g, g ≠ b.machine.generation ∨ b.machine.phase ≠ .debouncing →
        b.after (.timerFired g) = b := by
  have hc := hr.coherent
  obtain ⟨hlt, -, hlast⟩ := hr.rising
  refine ⟨hc.scans, hr.countP_startScan, ?_, ?_, hlt, fun g hg => Board.timerFired_of_stale hg⟩
  · constructor
    · intro ht
      obtain ⟨t, ht⟩ := Option.isSome_iff_exists.1 ht
      exact (hc.debouncing_of_timer ht).1
    · intro hp
      obtain ⟨t, ht, -⟩ := hc.timer_of_debouncing hp
      rw [ht]
      rfl
  · intro t ht
    exact ⟨(hc.debouncing_of_timer ht).2, hlast t ht⟩

end

/-- Two requests arm a timer each, the first timer comes too late, the second one starts a
scan, and a request meanwhile arms a third timer when the scan fails. -/
theorem single_flight_follow_up :
    ∃ h b, Run (.start (.bare ⟨"/work"⟩) .default) h b ∧
      h.length = 6 ∧ b.machine.phase = .debouncing ∧
      (armed h).map Timer.generation = [1, 2, 4] ∧
      b.scans.length = 0 ∧ h.countP Moment.starts = 1 ∧ (armed h).getLast? = some ⟨4, 100⟩ ∧
      b.after (.timerFired 2) = b := by
  have hr : Run (.start (.bare ⟨"/work"⟩) .default) _ _ :=
    (((((Run.refl.step (.called .requestRefresh) trivial).step
      (.called .requestRefresh) trivial).step (.timerFired 1) trivial).step
      (.timerFired 2) trivial).step (.called .requestRefresh) trivial).step
      (.scanFinished 1 (.error (.failedUnexpectedly "stopped"))) ⟨_, .head _, rfl, nofun⟩
  refine ⟨_, _, hr, rfl, rfl, rfl, ?_⟩
  obtain ⟨hs, hn, -, ht, -, hf⟩ := single_flight hr
  exact ⟨hs, hn, (ht _ rfl).2, hf 2 (.inl (by decide))⟩

end ProblemBoard.Refresh
