import ProblemBoard.Proofs.Refresh.Contents
import ProblemBoard.Proofs.Refresh.Demand

/-!
# The newest scan

The *newest* scan of a run is the one that started last.  As long as there is no pause, a scan
is owed, or the newest scan runs, or what the newest scan ended in is shown.  A scan that ran
into a pause ends in nothing that is shown, but when the pause is lifted before it finishes one
more scan is remembered.
-/

namespace ProblemBoard.Refresh

/-- The scan that started at a moment: it runs after the step, and its number is new. -/
def Moment.scan? (m : Moment) : Option Scan :=
  (m.board.after m.step).scans.find? (m.board.scansStarted < ·.id)

/-- The scan that started last in the course of some moments, newest first. -/
def newestScan (h : List Moment) : Option Scan := h.findSome? Moment.scan?

/-- What a scan ended in is shown: the scan finished at some moment, and the board holds the
result. -/
def Shown (h : List Moment) (s : Scan) (b : Board) : Prop :=
  ∃ m ∈ h, s ∈ m.board.scans ∧ ∃ result, m.step = .scanFinished s.id result ∧
    (∀ r, result = .ok r → ∃ c, r = s.result c) ∧ b.contents = .ofResult result

theorem Shown.later {h : List Moment} {s : Scan} {b b' : Board} (m : Moment) (hs : Shown h s b)
    (hb : b'.contents = b.contents) : Shown (m :: h) s b' := by
  obtain ⟨k, hk, hks, result, hstep, hresult, hc⟩ := hs
  exact ⟨k, .tail _ hk, hks, result, hstep, hresult, hb.trans hc⟩

/-! ## Turns and pauses -/

theorem Turn.paused_of_paused {m m' : Machine} {x : Signal} (h : Turn m x m' .paused) :
    m'.paused = true := by
  cases h with
  | pauseIdle | pauseDebouncing | pauseScanning => rfl

/-- A pause that ends without a scan that starts leaves one owed. -/
theorem Turn.owed_of_resumed {m m' : Machine} {x : Signal} {a : Action} (h : Turn m x m' a)
    (hp : m.paused = true) (hp' : m'.paused = false) (ha : a ≠ .startScan) :
    Owed m'.control := by
  cases h with
  | resumeScanning _ hs => exact ⟨rfl, .inr ⟨hs, rfl⟩⟩
  | resume => exact absurd rfl ha
  | pauseIdle | pauseDebouncing | pauseScanning => cases hp'
  | mutedRefresh | mutedImmediate | queueRefresh | queueImmediate | arm | start | stale | fire
  | still | settle | followUp => exact absurd (hp.symm.trans hp') (by decide)

/-- Outside of a pause a marked scan is followed by one more. -/
theorem Turn.pending_of_discard {m m' : Machine} {x : Signal} {a : Action} (h : Turn m x m' a)
    (hm : m.paused = false → m.discard = true → m.pending = true)
    (hs : m.discard = true → m.phase = .scanning) (hp : m'.paused = false)
    (hd : m'.discard = true) : m'.pending = true := by
  cases h with
  | queueRefresh | queueImmediate | resumeScanning => rfl
  | arm _ hn | start _ hn | resume _ hn => exact absurd (hs hd) hn
  | fire _ hw => exact absurd ((hs hd).symm.trans hw) (by decide)
  | pauseIdle | pauseDebouncing | pauseScanning => cases hp
  | settle | followUp => cases hd
  | mutedRefresh | mutedImmediate | stale | still => exact hm hp hd

theorem Board.not_paused_of_after {b : Board} {s : Step} (ha : b.Admits s)
    (hp : (b.after s).machine.paused = false) : b.action s ≠ .paused := by
  intro hact
  obtain ⟨x, -, ht⟩ := b.turn_of_action hact nofun
  rw [b.paused_after ha, ht.paused_of_paused] at hp
  cases hp

/-- A step that ends a pause starts a scan or leaves one owed. -/
theorem Board.owed_of_resumed {b : Board} {s : Step} (ha : b.Admits s)
    (hp : b.machine.paused = true) (hp' : (b.after s).machine.paused = false)
    (hs : b.action s ≠ .startScan) : Owed (b.after s).machine.control := by
  rw [b.paused_after ha] at hp'
  rw [b.control_after ha]
  cases hx : b.signal s with
  | none =>
    rw [b.response_of_silent hx, hp] at hp'
    cases hp'
  | some x => exact (b.turn hx).owed_of_resumed hp hp' hs

section
variable {project : Project} {settings : Settings} {h : List Moment} {b : Board}

theorem Run.pending_of_discard (hr : Run (.start project settings) h b)
    (hp : b.machine.paused = false) (hd : b.machine.discard = true) :
    b.machine.pending = true := by
  induction hr with
  | refl => cases hd
  | deliver _ _ ih => exact ih hp hd
  | @step _ b s hr ha ih =>
    have hc := b.control_after ha
    have hd : (b.response s).1.discard = true := (congrArg Control.discard hc).symm.trans hd
    refine (congrArg Control.pending hc).trans ?_
    show (b.response s).1.pending = true
    rw [b.paused_after ha] at hp
    cases hx : b.signal s with
    | none =>
      rw [b.response_of_silent hx] at hp hd ⊢
      exact ih hp hd
    | some x => exact (b.turn hx).pending_of_discard ih hr.coherent.discard hp hd

/-! ## Which scan is the newest -/

/-- A scan starts where the machine says so, and goes by what the board holds after the step. -/
theorem Run.scan?_mk {s : Step} (hr : Run (.start project settings) h b) (ha : b.Admits s) :
    Moment.scan? ⟨b, s⟩ =
      if b.action s = .startScan then some { b.nextScan with project := b.projectAfter s }
      else none := by
  have hold : (s.left b.scans).find? (b.scansStarted < ·.id) = none := by
    refine List.find?_eq_none.2 fun t ht => ?_
    have hle := hr.scan_id_le.1 t (Step.mem_left ht)
    simpa using hle
  rw [Moment.scan?, b.scans_after ha, List.find?_append, hold]
  split
  · simp [Board.nextScan]
  · rfl

theorem newestScan_of_none {m : Moment} (hm : m.scan? = none) :
    newestScan (m :: h) = newestScan h := by
  rw [newestScan, List.findSome?_cons, hm]
  rfl

theorem newestScan_of_some {m : Moment} {s : Scan} (hm : m.scan? = some s) :
    newestScan (m :: h) = some s := by
  rw [newestScan, List.findSome?_cons, hm]

/-- Once a scan was started there is a newest one. -/
theorem Run.exists_newestScan (hr : Run (.start project settings) h b)
    (hs : 0 < b.scansStarted) : ∃ s, newestScan h = some s := by
  induction hr with
  | refl => cases hs
  | deliver _ _ ih => exact ih hs
  | @step _ b s hr ha ih =>
    have hm := hr.scan?_mk ha
    by_cases hact : b.action s = .startScan
    · rw [if_pos hact] at hm
      exact ⟨_, newestScan_of_some hm⟩
    · rw [if_neg hact] at hm
      rw [b.scansStarted_after ha, if_neg hact] at hs
      rw [newestScan_of_none hm]
      exact ih hs

/-- A scan that runs is the newest, since nothing else runs beside a scan that starts. -/
theorem Run.newestScan_of_mem {s : Scan} (hr : Run (.start project settings) h b)
    (hs : s ∈ b.scans) : newestScan h = some s := by
  induction hr with
  | refl => cases hs
  | deliver _ _ ih => exact ih hs
  | @step _ b st hr ha ih =>
    have hm := hr.scan?_mk ha
    rw [b.scans_after ha] at hs
    by_cases hact : b.action st = .startScan
    · rw [if_pos hact] at hm hs
      rw [newestScan_of_some hm]
      rcases List.mem_append.1 hs with hs | hs
      · have hnone := hr.coherent.scans_eq_nil (b.phase_of_startScan hact)
        rw [hnone] at hs
        cases Step.mem_left hs
      · rw [List.mem_singleton.1 hs]
    · rw [if_neg hact] at hm
      rw [if_neg hact, List.append_nil] at hs
      rw [newestScan_of_none hm]
      exact ih (Step.mem_left hs)

/-! ## What becomes of it -/

/-- When the newest scan finishes outside of a pause, its result is shown or one more scan is
owed. -/
theorem Run.owed_or_shown_of_finished {s : Scan} {id : Nat}
    {result : Except ScanError ScanResult} (hr : Run (.start project settings) h b)
    (ha : b.Admits (.scanFinished id result)) (hp : b.machine.paused = false)
    (hs : newestScan h = some s) :
    Owed (b.after (.scanFinished id result)).machine.control ∨
      Shown (⟨b, .scanFinished id result⟩ :: h) s (b.after (.scanFinished id result)) := by
  have hturn := b.turn (s := .scanFinished id result) rfl
  have ⟨t, ht, hid, hresult⟩ := ha
  subst hid
  obtain rfl : t = s := Option.some.inj ((hr.newestScan_of_mem ht).symm.trans hs)
  cases hq : b.machine.pending with
  | true =>
    left
    refine owed_after_of_owed hr.coherent ha ?_ ((Moment.closes_mk _ _).2 hturn.ne_of_finished)
    exact ⟨hp, .inr ⟨(hr.coherent.scans_of_mem ht).1, hq⟩⟩
  | false =>
    right
    have hd : b.machine.discard = false := by
      refine Bool.eq_false_iff.2 fun hd => ?_
      exact absurd ((hr.pending_of_discard hp hd).symm.trans hq) (by decide)
    have hpub : b.machine.scanFinished.2.publish = true := by
      rw [Machine.scanFinished_publish, hd, hp]
      rfl
    refine ⟨_, .head _, ht, result, rfl, hresult, ?_⟩
    rw [b.contents_after, if_neg hturn.ne_of_finished.2, Board.contentsAfter, if_pos hpub]

/-- Outside of a pause a scan is owed, or the newest scan runs, or its result is shown. -/
theorem Run.owed_or_running_or_shown {s : Scan} (hr : Run (.start project settings) h b)
    (hs : newestScan h = some s) (hp : b.machine.paused = false) :
    Owed b.machine.control ∨ s ∈ b.scans ∨ Shown h s b := by
  induction hr with
  | refl => cases hs
  | deliver _ _ ih => exact ih hs hp
  | @step h b st hr ha ih =>
    have hm := hr.scan?_mk ha
    by_cases hact : b.action st = .startScan
    · right; left
      rw [if_pos hact] at hm
      obtain rfl := Option.some.inj ((newestScan_of_some hm).symm.trans hs)
      rw [b.scans_after ha, if_pos hact]
      exact List.mem_append_right _ (.head _)
    · rw [if_neg hact] at hm
      have hnewest := (newestScan_of_none hm).symm.trans hs
      cases hpb : b.machine.paused with
      | true => exact .inl (Board.owed_of_resumed ha hpb hp hact)
      | false =>
        have hpause := Board.not_paused_of_after ha hp
        by_cases hf : b.signal st = some .finished
        · obtain ⟨id, result, rfl⟩ := b.scanFinished_of_signal hf
          exact (hr.owed_or_shown_of_finished ha hpb hnewest).imp_right .inr
        · rcases ih hnewest hpb with ho | hrun | hshown
          · left
            exact owed_after_of_owed hr.coherent ha ho ((Moment.closes_mk _ _).2 ⟨hact, hpause⟩)
          · right; left
            rw [b.scans_after ha]
            refine List.mem_append_left _ (Step.mem_left_of_ne hrun ?_)
            rintro r rfl
            exact hf rfl
          · right; right
            exact hshown.later _ (b.contents_after_of_ne hpause hf)

end

end ProblemBoard.Refresh
