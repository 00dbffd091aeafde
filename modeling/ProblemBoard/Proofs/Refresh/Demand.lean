import ProblemBoard.Proofs.Refresh.SingleFlight

/-!
# Demands

A *demand* opens when a request is heard or a pause ends, and it closes when a scan starts or
a pause begins.  As long as it is open the machine owes a scan: it waits with a timer armed,
or a scan runs and one more is remembered.  Demands follow the moments of a run: the demand
of a moment is open as long as neither that moment nor a later one closes it.
-/

namespace ProblemBoard.Refresh

/-! ## Open demands -/

/-- Whether a signal opens a demand: a request that is heard, or the end of a pause. -/
def Signal.opens (m : Machine) : Signal → Bool
  | .refresh => !m.paused
  | .immediate => !m.paused
  | .pause paused => m.paused && !paused
  | .elapsed _ => false
  | .finished => false

/-- Whether a demand opens at a moment. -/
def Moment.opens (m : Moment) : Bool :=
  (m.board.signal m.step).any fun x => x.opens m.board.machine

/-- Whether the open demands close at a moment: a scan starts, or a pause begins. -/
def Moment.closes (m : Moment) : Bool := m.action = .startScan || m.action = .paused

/-- Whether the demand of a moment is still open after later moments. -/
def Moment.StaysOpen (m : Moment) (later : List Moment) : Prop :=
  ∀ k ∈ m :: later, k.closes = false

instance (m : Moment) (later : List Moment) : Decidable (m.StaysOpen later) :=
  inferInstanceAs (Decidable (∀ k ∈ m :: later, k.closes = false))

/-- The machine owes a scan: it waits for one, or remembers one while another runs. -/
def Owed (c : Control) : Prop :=
  c.paused = false ∧ (c.phase = .debouncing ∨ c.phase = .scanning ∧ c.pending = true)

/-! ## The machine owes what is demanded -/

/-- A demand that does not lead to a scan at once is owed. -/
theorem Turn.owed_of_opens {m m' : Machine} {x : Signal} {a : Action} (h : Turn m x m' a)
    (ho : x.opens m = true) (ha : a ≠ .startScan) : Owed m'.control := by
  cases h with
  | mutedRefresh hp | mutedImmediate hp => simp [Signal.opens, hp] at ho
  | queueRefresh hp hs | queueImmediate hp hs => exact ⟨hp, .inr ⟨hs, rfl⟩⟩
  | arm hp hs => exact ⟨hp, .inl rfl⟩
  | start | fire | resume => exact absurd rfl ha
  | stale | settle | followUp => cases ho
  | still => simp [Signal.opens] at ho
  | pauseIdle | pauseDebouncing | pauseScanning => simp [Signal.opens] at ho
  | resumeScanning hp hs => exact ⟨rfl, .inr ⟨hs, rfl⟩⟩

/-- A demand that opens while a scan runs is remembered. -/
theorem Turn.queued_of_opens {m m' : Machine} {x : Signal} {a : Action} (h : Turn m x m' a)
    (ho : x.opens m = true) (hr : m.phase = .scanning) : a = .queued := by
  cases h with
  | mutedRefresh hp | mutedImmediate hp => simp [Signal.opens, hp] at ho
  | queueRefresh | queueImmediate | resumeScanning => rfl
  | arm _ hs | start _ hs | resume _ hs => exact absurd hr hs
  | stale | fire | settle | followUp => cases ho
  | still | pauseIdle | pauseDebouncing | pauseScanning => simp [Signal.opens] at ho

/-- When a scan finishes while one more is owed, a timer is armed. -/
theorem Turn.armTimer_of_owed {m m' : Machine} {a : Action} (h : Turn m .finished m' a)
    (ho : Owed m.control) (hs : m.phase = .scanning) : ∃ g d, a = .armTimer g d := by
  obtain ⟨hp, hd | ⟨-, hq⟩⟩ := ho
  · simp [hs] at hd
  · cases h with
    | settle hn =>
      rw [Machine.control_paused] at hp
      rw [Machine.control_pending] at hq
      simp [hp, hq] at hn
    | followUp => exact ⟨_, _, rfl⟩

/-- What is owed stays owed until a scan starts or a pause begins. -/
theorem Turn.owed_of_owed {m m' : Machine} {x : Signal} {a : Action} (h : Turn m x m' a)
    (ho : Owed m.control) (hf : x = .finished → m.phase = .scanning) (ha : a ≠ .startScan)
    (hb : a ≠ .paused) : Owed m'.control := by
  cases h with
  | mutedRefresh | mutedImmediate | stale | still => exact ho
  | queueRefresh hp hs | queueImmediate hp hs => exact ⟨hp, .inr ⟨hs, rfl⟩⟩
  | arm hp hs => exact ⟨hp, .inl rfl⟩
  | start | fire | resume => exact absurd rfl ha
  | pauseIdle | pauseDebouncing | pauseScanning => exact absurd rfl hb
  | resumeScanning hp hs => exact ⟨rfl, .inr ⟨hs, rfl⟩⟩
  | settle hn =>
    obtain ⟨g, d, hg⟩ := (Turn.settle hn).armTimer_of_owed ho (hf rfl)
    cases hg
  | followUp hp hq => exact ⟨hp, .inl rfl⟩

/-! ## Demands along a run -/

theorem Moment.closes_mk (b : Board) (s : Step) :
    Moment.closes ⟨b, s⟩ = false ↔ b.action s ≠ .startScan ∧ b.action s ≠ .paused := by
  show (decide (b.action s = .startScan) || decide (b.action s = .paused)) = false ↔ _
  simp

theorem owed_after_of_opens {b : Board} {s : Step} (ha : b.Admits s)
    (ho : Moment.opens ⟨b, s⟩ = true) (hc : Moment.closes ⟨b, s⟩ = false) :
    Owed (b.after s).machine.control := by
  obtain ⟨x, hx, ho⟩ := (Option.any_eq_true _ _).1 ho
  rw [b.control_after ha]
  exact (b.turn hx).owed_of_opens ho ((Moment.closes_mk b s).1 hc).1

theorem owed_after_of_owed {b : Board} {s : Step} (hw : Coherent b.work) (ha : b.Admits s)
    (ho : Owed b.machine.control) (hc : Moment.closes ⟨b, s⟩ = false) :
    Owed (b.after s).machine.control := by
  obtain ⟨hs, hp⟩ := (Moment.closes_mk b s).1 hc
  rw [b.control_after ha]
  cases hx : b.signal s with
  | none => rw [b.response_of_silent hx]; exact ho
  | some x =>
    refine (b.turn hx).owed_of_owed ho ?_ hs hp
    rintro rfl
    exact (hw.left_of_finished ha hx).1

section
variable {project : Project} {settings : Settings} {b : Board} {m : Moment}
variable {later earlier : List Moment}

/-- An open demand is owed. -/
theorem Run.owed (hr : Run (.start project settings) (later ++ m :: earlier) b)
    (ho : m.opens = true) (hc : m.StaysOpen later) : Owed b.machine.control := by
  refine hr.since (P := fun b => Owed b.machine.control) (fun _ _ _ hw => hw) ?_ ?_
  · exact owed_after_of_opens hr.at_moment.2 ho (hc m (.head _))
  · intro k hk between hr ha hw
    exact owed_after_of_owed hr.coherent ha hw (hc k (.tail _ hk))

/-- A timer that is waited for outside of a pause starts a scan when it fires. -/
theorem action_timerFired {g : Nat} (hp : b.machine.paused = false)
    (hd : b.machine.phase = .debouncing) (hg : g = b.machine.generation) :
    b.action (.timerFired g) = .startScan := by
  show (b.machine.timerElapsed g).2 = .startScan
  simp [Machine.timerElapsed, hp, hd, hg, Machine.begin]

/-- A demand that opens while a scan runs does not close at once. -/
theorem closes_of_running {b : Board} {s : Step} (hs : b.machine.phase = .scanning)
    (ho : Moment.opens ⟨b, s⟩ = true) : Moment.closes ⟨b, s⟩ = false := by
  obtain ⟨x, hx, ho⟩ := (Option.any_eq_true _ _).1 ho
  rw [Moment.closes_mk, (b.turn hx).queued_of_opens ho hs]
  exact ⟨nofun, nofun⟩

/-- A scan that ran when a demand opened has finished when another scan starts. -/
theorem Run.finished_of_startScan (hr : Run (.start project settings) (later ++ m :: earlier) b)
    (ho : m.opens = true) {s : Scan} (hs : s ∈ m.board.scans) {st : Step}
    (hst : b.action st = .startScan) : ∃ k ∈ later, ∃ r, k.step = .scanFinished s.id r := by
  apply Classical.byContradiction
  intro hn
  have hmem : s ∈ b.scans := by
    apply hr.scan_remains hs
    intro k hk r hkr
    rcases List.mem_cons.1 hk with rfl | hk
    · simp [Moment.opens, Board.signal, hkr, Signal.opens] at ho
    · exact hn ⟨k, hk, r, hkr⟩
  exact b.phase_of_startScan hst (hr.coherent.scans_of_mem hmem).1

/-- In every run an open demand is owed: the machine waits with an armed timer that will start
a scan, or a scan runs and one more is remembered, so that a timer is armed when it finishes.
A demand that opens while a scan runs is not met by that scan: it stays open until the scan
has finished, and the scan that meets it is a later one. -/
theorem no_demand_lost (hr : Run (.start project settings) (later ++ m :: earlier) b)
    (ho : m.opens = true) :
    (m.board.scans ≠ [] → m.closes = false) ∧
      (m.StaysOpen later →
        ((b.machine.phase = .debouncing ∧ ∃ t, b.timer = some t ∧
              t.generation = b.machine.generation ∧
              b.action (.timerFired t.generation) = .startScan) ∨
            (b.machine.phase = .scanning ∧ b.machine.pending = true)) ∧
          b.machine.phase ≠ .idle ∧
          (∀ id result, b.Admits (.scanFinished id result) →
            ∃ g d, b.action (.scanFinished id result) = .armTimer g d) ∧
          ∀ s ∈ m.board.scans, ∀ st, b.action st = .startScan →
            s.id < b.nextScan.id ∧ ∃ k ∈ later, ∃ r, k.step = .scanFinished s.id r) := by
  constructor
  · intro hs
    obtain ⟨s, hs⟩ := List.exists_mem_of_ne_nil _ hs
    exact closes_of_running (hr.at_moment.1.coherent.scans_of_mem hs).1 ho
  · intro hc
    have hw := hr.coherent
    obtain ⟨hp, hphase⟩ := hr.owed ho hc
    refine ⟨?_, ?_, ?_, ?_⟩
    · rcases hphase with hd | hq
      · obtain ⟨t, ht, hg⟩ := hw.timer_of_debouncing hd
        exact .inl ⟨hd, t, ht, hg, action_timerFired hp hd hg⟩
      · exact .inr hq
    · intro hi
      rcases hphase with hd | hq
      · simp [hi] at hd
      · simp [hi] at hq
    · intro id result ha
      exact (b.turn rfl).armTimer_of_owed (hr.owed ho hc) (hw.left_of_finished ha rfl).1
    · intro s hs st hst
      have hid := hr.scan_id_le.2 m (List.mem_append_right _ (.head _)) s hs
      exact ⟨Nat.lt_succ_of_le hid, hr.finished_of_startScan ho hs hst⟩

end

/-- A request that comes while the first scan runs is open when that scan has failed, and the
timer that waits then will start the second scan. -/
theorem no_demand_lost_follow_up :
    ∃ k m earlier b, Run (.start (.bare ⟨"/work"⟩) .default) ([k] ++ m :: earlier) b ∧
      m.opens = true ∧ m.StaysOpen [k] ∧ (∃ s ∈ m.board.scans, s.id = 1) ∧
      b.machine.phase = .debouncing ∧ b.action (.timerFired 2) = .startScan ∧
      1 < b.nextScan.id ∧ ∃ j ∈ [k], ∃ r, j.step = .scanFinished 1 r := by
  have hr : Run (.start (.bare ⟨"/work"⟩) .default) ([_] ++ _ :: _) _ :=
    ((Run.refl.step (.called .requestImmediate) trivial).step (.called .requestRefresh)
      trivial).step (.scanFinished 1 (.error (.failedUnexpectedly "stopped")))
      ⟨_, .head _, rfl, nofun⟩
  have hd := (no_demand_lost hr rfl).2 (by decide)
  refine ⟨_, _, _, _, hr, rfl, by decide, ⟨_, .head _, rfl⟩, rfl, ?_⟩
  rcases hd.1 with ⟨-, t, ht, hg, hact⟩ | ⟨hs, -⟩
  · obtain rfl := Option.some.inj ht
    exact ⟨hact, hd.2.2.2 _ (.head _) _ hact⟩
  · cases hs

end ProblemBoard.Refresh
