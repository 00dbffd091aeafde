import ProblemBoard.Proofs.Refresh.Agreement
import ProblemBoard.Proofs.Refresh.SingleFlight

/-!
# Pauses

During a pause nothing is shown, nothing is waited for, and nothing starts but by the end of
the pause.  A scan that runs into a pause is marked: it stays marked until it finishes, however
often the pause ends and begins again before, and what it found is dropped.
-/

namespace ProblemBoard.Refresh

/-! ## Turns of a paused machine -/

/-- A machine that is paused after a turn has just begun to pause, or was paused and took no
action. -/
theorem Turn.of_paused {m m' : Machine} {x : Signal} {a : Action} (h : Turn m x m' a)
    (hp : m'.paused = true) : a = .paused ∨ (m.paused = true ∧ a = .none) := by
  cases h with
  | mutedRefresh hm | mutedImmediate hm => exact .inr ⟨hm, rfl⟩
  | pauseIdle | pauseDebouncing | pauseScanning => exact .inl rfl
  | stale | still | settle => exact .inr ⟨hp, rfl⟩
  | queueRefresh hm | queueImmediate hm | arm hm | start hm | fire hm | followUp hm =>
    exact absurd (hp.symm.trans hm) (by decide)
  | resumeScanning | resume => cases hp

/-- A paused machine starts a scan only when the pause ends. -/
theorem Turn.pause_of_startScan {m m' : Machine} {x : Signal} (h : Turn m x m' .startScan)
    (hp : m.paused = true) : x = .pause false := by
  cases h with
  | start hm | fire hm => exact absurd (hp.symm.trans hm) (by decide)
  | resume => rfl

/-- A scan that runs when a pause begins is marked. -/
theorem Turn.discard_of_paused {m m' : Machine} {x : Signal} (h : Turn m x m' .paused)
    (hs : m.phase = .scanning) : m'.discard = true := by
  cases h with
  | pauseIdle _ hi => exact absurd (hs.symm.trans hi) (by decide)
  | pauseDebouncing _ hd => exact absurd (hs.symm.trans hd) (by decide)
  | pauseScanning => rfl

/-- The mark stays until the scan finishes. -/
theorem Turn.discard_of_discard {m m' : Machine} {x : Signal} {a : Action} (h : Turn m x m' a)
    (hd : m.discard = true) (hx : x ≠ .finished) : m'.discard = true := by
  cases h with
  | pauseScanning => rfl
  | settle | followUp => exact absurd rfl hx
  | _ => exact hd

theorem Board.called_of_pause {b : Board} {s : Step} (h : b.signal s = some (.pause false)) :
    s = .called (.setPaused false) ∨ s = .called .togglePause := by
  unfold Board.signal at h
  split at h
  all_goals simp_all

/-! ## The last badge -/

/-- A step of a paused board tells of no badge, unless it ends the pause. -/
theorem Board.told_of_paused {b : Board} (s : Step) (hp : b.machine.paused = true) :
    ∀ e ∈ b.told s, e.badge? = none := by
  have hr : ∀ mode, b.rearranged mode = [] := fun mode => if_pos (.inr (.inl hp))
  intro e he
  unfold Board.told at he
  split at he
  · rw [hr] at he; cases he
  · rw [hr] at he; cases he
  · obtain ⟨p, -, rfl⟩ := List.mem_map.1 he
    rfl
  · split at he
    · next hpub => simp [Machine.scanFinished_publish, hp] at hpub
    · cases he
  · cases he

theorem Board.of_paused {b : Board} {s : Step} (hp : (b.response s).1.paused = true) :
    b.action s = .paused ∨ (b.machine.paused = true ∧ b.action s = .none) := by
  cases hx : b.signal s with
  | none =>
    rw [Board.action, b.response_of_silent hx]
    rw [b.response_of_silent hx] at hp
    exact .inr ⟨hp, rfl⟩
  | some x => exact (b.turn hx).of_paused hp

section
variable {project : Project} {settings : Settings} {h : List Moment} {b : Board}

/-- During a pause the last badge is clear. -/
theorem Run.lastBadge_of_paused (hr : Run (.start project settings) h b)
    (hp : b.machine.paused = true) : lastBadge (pushed h) = some .clear := by
  induction hr with
  | refl => cases hp
  | deliver _ _ ih => exact ih hp
  | @step h b s _ ha ih =>
    rw [b.paused_after ha] at hp
    rw [pushed_cons, Moment.pushed_mk]
    rcases Board.of_paused hp with hact | ⟨hm, hact⟩
    · rw [hact]
      exact lastBadge_append_of_some (lastBadge_append_of_some rfl)
    · have he : (b.action s).effects = [] := by rw [hact]; rfl
      rw [he, List.append_nil, lastBadge_append_of_none (b.told_of_paused s hm)]
      exact ih hm

/-! ## Scans that ran into a pause -/

/-- A scan that a step leaves running is marked when a pause begins, and stays marked. -/
theorem Coherent.discard_of_left {b : Board} {st : Step} {s : Scan} (hc : Coherent b.work)
    (ha : b.Admits st) (hs : s ∈ st.left b.scans)
    (hd : b.action st = .paused ∨ b.machine.discard = true) :
    (b.response st).1.discard = true := by
  have hphase := (hc.scans_of_mem (Step.mem_left hs)).1
  cases hx : b.signal st with
  | none =>
    rw [Board.action, b.response_of_silent hx] at hd
    rw [b.response_of_silent hx]
    exact hd.resolve_left (by simp)
  | some x =>
    have ht := b.turn hx
    rcases hd with hact | hd
    · rw [hact] at ht
      exact ht.discard_of_paused hphase
    · refine ht.discard_of_discard hd ?_
      rintro rfl
      rw [(hc.left_of_finished ha hx).2] at hs
      cases hs

/-- A scan with a number given out before is still marked after a step: one that starts now
has a number of its own. -/
theorem discard_after {b : Board} {st : Step} {n : Nat} {t : Scan} (hc : Coherent b.work)
    (ha : b.Admits st) (hn : n ≤ b.scansStarted) (ht : t ∈ (b.after st).scans) (hid : t.id = n)
    (hd : t ∈ b.scans → b.action st = .paused ∨ b.machine.discard = true) :
    (b.after st).machine.discard = true := by
  show (b.after st).machine.control.discard = true
  rw [b.control_after ha]
  rw [b.scans_after ha] at ht
  rcases List.mem_append.1 ht with ht | ht
  · exact hc.discard_of_left ha ht (hd (Step.mem_left ht))
  · split at ht
    · rw [List.mem_singleton.1 ht] at hid
      have hid : b.scansStarted + 1 = n := hid
      omega
    · cases ht

/-- A scan that ran when some pause began is marked as long as it runs. -/
theorem Run.discard_of_paused {later earlier : List Moment} {m : Moment}
    (hr : Run (.start project settings) (later ++ m :: earlier) b) (hact : m.action = .paused)
    {s t : Scan} (hs : s ∈ m.board.scans) (ht : t ∈ b.scans) (hid : t.id = s.id) :
    b.machine.discard = true := by
  obtain ⟨hr₀, ha₀⟩ := hr.at_moment
  refine hr.since (P := fun b => ∀ t ∈ b.scans, t.id = s.id → b.machine.discard = true)
    (fun _ _ _ hb => hb) ?_ ?_ t ht hid
  · intro t ht hid
    exact discard_after hr₀.coherent ha₀ (hr₀.scan_id_le.1 s hs) ht hid fun _ => .inl hact
  · intro k _ between hr ha hk t ht hid
    have hle := hr.scan_id_le.2 m (List.mem_append_right _ (.head _)) s hs
    exact discard_after hr.coherent ha hle ht hid fun ht => .inr (hk t ht hid)

/-- What a marked scan ended in is dropped: nothing that is shown or told depends on it. -/
theorem Board.scanFinished_of_discard {b : Board} (hd : b.machine.discard = true) (id : Nat)
    (result : Except ScanError ScanResult) :
    b.scanFinished id result =
      { b with machine := b.machine.scanFinished.1, scans := b.scans.filter (·.id != id) }.apply
        b.machine.scanFinished.2.next := by
  have hp : b.machine.scanFinished.2.publish = false := by
    rw [Machine.scanFinished_publish, hd]
    rfl
  unfold Board.scanFinished
  dsimp only
  rw [hp]
  rfl

theorem Board.display_scanFinished_of_discard {b : Board} (hd : b.machine.discard = true)
    (id : Nat) (result : Except ScanError ScanResult) :
    (b.scanFinished id result).display = b.display ∧
      (b.scanFinished id result).notified = b.notified ∧
      (b.scanFinished id result).effects = b.effects := by
  rw [Board.scanFinished_of_discard hd]
  rcases b.machine.scanFinished_turn.action_of_finished with h | ⟨g, d, h⟩ <;>
    simp [h, Board.apply, Board.display, Machine.scanFinished_paused, Machine.scanFinished_cursor]

/-- In every run, as long as there is a pause nothing is shown, no timer is armed, no step but
the end of the pause starts a scan, and the last badge is clear.  And a scan that ran when some
pause began changes nothing that is shown or told when it finishes, be there a pause by then or
not: what it ended in makes no difference. -/
theorem pause_airtight (hr : Run (.start project settings) h b) :
    (b.machine.paused = true →
      b.view.roots = [] ∧ b.view.flat = [] ∧ b.problems = [] ∧ b.global = [] ∧
        b.error = none ∧ b.machine.cursor.index = none ∧ b.timer = none ∧
        (∀ s, b.action s = .startScan →
          s = .called (.setPaused false) ∨ s = .called .togglePause) ∧
        lastBadge (pushed h) = some .clear) ∧
      ∀ m ∈ h, m.action = .paused → ∀ s ∈ m.board.scans, ∀ result,
        b.Admits (.scanFinished s.id result) →
          (b.after (.scanFinished s.id result)).display = b.display ∧
            (b.after (.scanFinished s.id result)).notified = b.notified ∧
            (b.after (.scanFinished s.id result)).effects = b.effects ∧
            ∀ result', b.after (.scanFinished s.id result') =
              b.after (.scanFinished s.id result) := by
  constructor
  · intro hp
    have hd := hr.agrees
    have hc := hr.coherent
    obtain ⟨hps, hg, hv, hi⟩ := hd.of_blank (.inr hp)
    have hv : b.view = .empty b.mode := hv
    refine ⟨by rw [hv]; rfl, by rw [hv]; rfl, hps, hg, hd.quiet hp, hi,
      hc.timer_eq_none (hc.paused hp).1, ?_, hr.lastBadge_of_paused hp⟩
    intro s hs
    cases hx : b.signal s with
    | none =>
      rw [Board.action, b.response_of_silent hx] at hs
      cases hs
    | some x =>
      have ht := b.turn hx
      rw [hs] at ht
      rw [ht.pause_of_startScan hp] at hx
      exact Board.called_of_pause hx
  · intro m hm hact s hs result ha
    obtain ⟨t, ht, hid, -⟩ := ha
    obtain ⟨later, earlier, rfl⟩ := List.append_of_mem hm
    have hd := hr.discard_of_paused hact hs ht hid
    obtain ⟨hdisplay, hnotified, heffects⟩ := Board.display_scanFinished_of_discard hd s.id result
    refine ⟨hdisplay, hnotified, heffects, fun result' => ?_⟩
    exact (Board.scanFinished_of_discard hd s.id result').trans
      (Board.scanFinished_of_discard hd s.id result).symm

end

/-- A pause begins while the first scan runs and ends before it finishes.  The badge is clear
during the pause, and the problem the scan found is not shown after it. -/
theorem pause_airtight_lifted :
    ∃ h b m b' r, Run (.start (.bare ⟨"/work"⟩) .default) h b ∧
      b.machine.paused = true ∧ b.scans.length = 1 ∧ lastBadge (pushed h) = some .clear ∧
      Run (.start (.bare ⟨"/work"⟩) .default) (m :: h) b' ∧ b'.machine.paused = false ∧
      b'.Admits (.scanFinished 1 (.ok r)) ∧ r.collection.problems.length = 1 ∧
      (b'.after (.scanFinished 1 (.ok r))).display = b'.display ∧
      (b'.after (.scanFinished 1 (.ok r))).effects = b'.effects := by
  let p : Problem := ⟨⟨"/work/a.ts"⟩, .point ⟨0, 0⟩, .error, "missing name", "tsc", some "2304"⟩
  let s : Scan := ⟨1, .bare ⟨"/work"⟩, .ofSettings .default, .file⟩
  have hr : Run (.start (.bare ⟨"/work"⟩) .default) _ _ :=
    (Run.refl.step (.called .requestImmediate) trivial).step (.called (.setPaused true)) trivial
  have hr' := hr.step (.called (.setPaused false)) trivial
  obtain ⟨-, -, -, -, -, -, -, -, hbadge⟩ := (pause_airtight hr).1 rfl
  refine ⟨_, _, _, _, s.result ⟨[p], [], []⟩, hr, rfl, rfl, hbadge, hr', rfl, ?_⟩
  have ha : ∀ r, (.ok (s.result ⟨[p], [], []⟩) : Except ScanError ScanResult) = .ok r →
      ∃ c, r = s.result c :=
    fun _ hok => ⟨_, (Except.ok.inj hok).symm⟩
  obtain ⟨hdisplay, -, heffects, -⟩ :=
    (pause_airtight hr').2 _ (.tail _ (.head _)) rfl s (.head _) _ ⟨s, .head _, rfl, ha⟩
  exact ⟨⟨s, .head _, rfl, ha⟩, rfl, hdisplay, heffects⟩

end ProblemBoard.Refresh
