import ProblemBoard.Proofs.Refresh.Playing

/-!
# The work ahead

When the clock of a timeline is moved, one piece of work is done after another, and `workBound` is
the number of those after which the timeline gives up.  It never comes to that: a move of the
clock leaves no work that could be done by then, `Played.rests_advance`.

The *load* of a timeline bounds the work that can come of what is under way.  A scan goes on three
times at most; a timer and a remembered request lead to a scan; a resolution and a reaction of the
host lead to a request or to a resolution.  Every piece of work but a move of the clock takes
something off the load, since only one scan runs at a time and the timer that is armed is the one
the machine waits for.  And after a move of the clock some other piece of work can be done.
-/

namespace ProblemBoard.Refresh

open Timeline

/-! ## What runs -/

section
variable {project : Project} {settings : Settings} {b : Board}

/-- A scan that runs is the only one. -/
theorem Board.Reaches.scans_eq (hb : (Board.start project settings).Reaches b) {s : Scan}
    (hs : s ∈ b.scans) : b.scans = [s] := by
  obtain ⟨c, hl⟩ := hb
  have hone : c.scans ++ b.scans = [s] :=
    (hl.coherent.scans_of_mem (List.mem_append_right _ hs)).2
  rcases List.append_eq_singleton_iff.1 hone with ⟨-, h⟩ | ⟨-, h⟩
  · exact h
  · rw [h] at hs
    cases hs

/-- The armed timer starts a scan when it fires. -/
theorem Board.Reaches.fires (hb : (Board.start project settings).Reaches b) {timer : Timer}
    (ht : b.timer = some timer) : b.action (.timerFired timer.generation) = .startScan := by
  obtain ⟨c, hl⟩ := hb
  have hrestored : (b.restore c).timer = some timer := by
    simp [Board.restore, ht]
  obtain ⟨hphase, hgeneration⟩ := hl.coherent.debouncing_of_timer hrestored
  have hpaused : b.machine.paused = false := by
    refine Bool.eq_false_iff.2 fun hp => ?_
    exact (hl.coherent.paused hp).1 hphase
  have hphase : b.machine.phase = .debouncing := hphase
  have hgeneration : timer.generation = b.machine.generation := hgeneration
  show (b.machine.timerElapsed timer.generation).2 = .startScan
  simp [Machine.timerElapsed, Machine.begin, hpaused, hphase, hgeneration]

end

/-! ## The load of a board -/

/-- No flight has more than a whole scan ahead. -/
def Short (flights : List Flight) : Prop := ∀ f ∈ flights, f.progress.resumptions ≤ 3

theorem Short.resumptions_le {flights : List Flight} (hf : Short flights) (s : Scan) :
    (progressOf flights s).resumptions ≤ 3 := by
  unfold progressOf
  cases h : flights.find? (·.scan.id = s.id) with
  | none => exact Nat.le_refl 3
  | some f => exact hf f (List.mem_of_find?_eq_some h)

theorem Progress.resumptions_pos (p : Progress) : 0 < p.resumptions := by
  cases p with
  | ready => decide
  | waiting => exact Nat.succ_pos _

/-- How often scans go on at most. -/
def resumptions (flights : List Flight) : List Scan → Nat
  | [] => 0
  | s :: scans => (progressOf flights s).resumptions + resumptions flights scans

@[simp] theorem resumptions_nil (flights : List Flight) : resumptions flights [] = 0 := rfl

@[simp] theorem resumptions_singleton (flights : List Flight) (s : Scan) :
    resumptions flights [s] = (progressOf flights s).resumptions := rfl

@[simp] theorem resumptions_append (flights : List Flight) (scans scans' : List Scan) :
    resumptions flights (scans ++ scans') =
      resumptions flights scans + resumptions flights scans' := by
  induction scans with
  | nil => exact (Nat.zero_add _).symm
  | cons s scans ih => rw [List.cons_append, resumptions, resumptions, ih, Nat.add_assoc]

theorem Short.resumptions_scans_le {flights : List Flight} (hf : Short flights)
    (scans : List Scan) : resumptions flights scans ≤ 3 * scans.length := by
  induction scans with
  | nil => exact Nat.le_refl 0
  | cons s scans ih =>
    have hs := hf.resumptions_le s
    rw [resumptions, List.length_cons]
    omega

/-- How often the work under way goes on at most when nothing else happens. -/
def Work.load (flights : List Flight) (w : Work) : Nat :=
  4 * (w.timer.toList.length + w.control.pending.toNat) + resumptions flights w.scans

def Board.load (flights : List Flight) (b : Board) : Nat :=
  5 * b.resolutions.length + b.work.load flights

/-- What a signal adds to the load at most. -/
def Signal.load : Signal → Nat
  | .refresh | .immediate | .pause _ => 4
  | .elapsed _ | .finished => 0

/-- What follows from a turn of the machine, but for a timer that fires. -/
theorem Turn.load_le {m m' : Machine} {x : Signal} {a : Action} (ht : Turn m x m' a)
    (hx : ∀ g, x ≠ .elapsed g) (timer : Option Timer) :
    4 * ((a.rearm timer).toList.length + m'.pending.toNat) + (if a = .startScan then 3 else 0) ≤
      4 * (timer.toList.length + m.pending.toNat) + x.load := by
  have hpending := m.pending.toNat_le
  cases ht with
  | stale | fire => exact absurd rfl (hx _)
  | mutedRefresh | mutedImmediate | still | pauseIdle | pauseDebouncing | pauseScanning =>
    simp [Action.rearm, Signal.load]
  | followUp _ hp =>
    simp only [Action.rearm, Signal.load, hp, Option.toList_some, List.length_singleton,
      Bool.toNat_true, Bool.toNat_false, reduceCtorEq, if_false]
    omega
  | queueRefresh | queueImmediate | arm | start | resumeScanning | resume | settle =>
    simp only [Action.rearm, Signal.load, Option.toList_none, Option.toList_some, List.length_nil,
      List.length_singleton, Bool.toNat_true, Bool.toNat_false, reduceCtorEq, if_true, if_false]
    omega

section
variable {b : Board} {s : Step} {flights : List Flight}

/-- What a step leaves of the work and what follows from it. -/
theorem Board.load_work_after {x : Signal} (hf : Short flights) (hs : b.signal s = some x)
    (hx : ∀ g, x ≠ .elapsed g) :
    (b.after s).work.load flights ≤
      { b.work with scans := s.left b.scans }.load flights + x.load := by
  have hne : s ≠ .called .shutdown := by
    rintro rfl
    cases hs
  have hturn := (b.turn hs).load_le hx b.timer
  have hnext := hf.resumptions_le { b.nextScan with project := b.projectAfter s }
  dsimp only at hnext
  rw [b.work_after_of_ne hne, Board.workAfter]
  by_cases ha : b.action s = .startScan
  · simp only [ha, if_true, Work.load, resumptions_append, resumptions_singleton,
      Machine.control_pending, Board.work_timer, Board.work_control] at hturn ⊢
    omega
  · simp only [ha, if_false, Work.load, List.append_nil, Machine.control_pending,
      Board.work_timer, Board.work_control] at hturn ⊢
    omega

theorem Board.load_after (b : Board) (s : Step) :
    (b.after s).load flights =
      5 * ((s.unresolved b.resolutions).length + s.revalidates.toNat) +
        (b.after s).work.load flights := by
  rw [Board.load, b.resolutions_after, List.length_append]
  cases s.revalidates <;> rfl

/-- A resolution that comes back leads to a request at most. -/
theorem Board.load_landed_lt (hf : Short flights) {r : Resolution} (hr : r ∈ b.resolutions)
    (project : Project) :
    (b.after (.resolutionLanded r project)).load flights < b.load flights := by
  have hwork : (b.after (.resolutionLanded r project)).work.load flights ≤
      b.work.load flights + 4 := by
    by_cases h : r.revision = b.revision
    · exact Board.load_work_after hf (Board.signal_landed_of_eq h project) nofun
    · have hsilent := Board.signal_landed_of_ne h project
      rw [b.work_after_of_ne (s := .resolutionLanded r project) nofun,
        b.workAfter_of_silent hsilent]
      exact Nat.le_add_right _ 4
  have hleft : (b.resolutions.filter (·.revision != r.revision)).length < b.resolutions.length :=
    List.length_filter_lt_length_iff_exists.2 ⟨r, hr, by simp⟩
  rw [b.load_after, Board.load]
  show 5 * (_ + 0) + _ < _
  rw [Step.unresolved]
  omega

section
variable {project : Project} {settings : Settings}

/-- A scan that finishes takes itself off the load, and a request that was remembered becomes a
timer. -/
theorem Board.Reaches.load_finished_lt (hb : (Board.start project settings).Reaches b)
    (hf : Short flights) {t : Scan} (ht : t ∈ b.scans) (result : Except ScanError ScanResult) :
    (b.after (.scanFinished t.id result)).load flights < b.load flights := by
  have hwork := Board.load_work_after (b := b) (s := .scanFinished t.id result) hf rfl nofun
  have hpos := (progressOf flights t).resumptions_pos
  have hleft : Step.left b.scans (.scanFinished t.id result) = [] := by
    simp [hb.scans_eq ht, Step.left]
  have hbefore : b.work.load flights =
      { b.work with scans := [] }.load flights + (progressOf flights t).resumptions := by
    simp [Work.load, hb.scans_eq ht]
  rw [hleft] at hwork
  change _ ≤ _ + 0 at hwork
  rw [b.load_after, Board.load, hbefore]
  show 5 * (b.resolutions.length + 0) + _ < _
  omega

theorem Turn.pending_of_fire {m m' : Machine} {g : Nat} (ht : Turn m (.elapsed g) m' .startScan) :
    m'.pending = m.pending := by
  cases ht
  rfl

/-- The armed timer becomes a scan when it fires. -/
theorem Board.Reaches.load_fired_lt (hb : (Board.start project settings).Reaches b)
    (hf : Short flights) {timer : Timer} (ht : b.timer = some timer) :
    (b.after (.timerFired timer.generation)).load flights < b.load flights := by
  have hfires := hb.fires ht
  have hturn : Turn b.machine (.elapsed timer.generation) _ .startScan := hfires ▸ b.turn rfl
  have hnext := hf.resumptions_le b.nextScan
  have hbefore : b.work.load flights = 4 * (1 + b.machine.pending.toNat) +
      resumptions flights b.scans := by
    simp [Work.load, ht]
  have hafter : (b.after (.timerFired timer.generation)).work.load flights =
      4 * b.machine.pending.toNat +
        (resumptions flights b.scans + (progressOf flights b.nextScan).resumptions) := by
    rw [b.work_after_of_ne (s := .timerFired timer.generation) nofun,
      Board.workAfter_of_startScan hfires]
    simp [Work.load, Step.left, Board.projectAfter, hturn.pending_of_fire]
    rfl
  rw [b.load_after, Board.load, hbefore, hafter]
  show 5 * (b.resolutions.length + 0) + _ < _
  omega

end

theorem Board.load_work_shutdown : b.shutdown.work.load flights ≤ b.work.load flights := by
  show 4 * (0 + b.machine.pending.toNat) + 0 ≤ 4 * (_ + b.machine.pending.toNat) + _
  omega

theorem Board.load_work_called (hf : Short flights) (b : Board) (c : Call) :
    (b.after (.called c)).work.load flights ≤
      b.work.load flights + if (b.signal (.called c)).isSome then 4 else 0 := by
  cases hx : b.signal (.called c) with
  | none =>
    by_cases hs : c = .shutdown
    · subst hs
      exact Board.load_work_shutdown
    · rw [b.work_after_of_ne (fun h => hs (Step.called.inj h)), b.workAfter_of_silent hx]
      exact Nat.le_refl _
  | some x =>
    have hrequest : x.load = 4 ∧ ∀ g, x ≠ .elapsed g := by
      cases c with
      | requestRefresh | requestImmediate | setPaused | togglePause =>
        obtain rfl := Option.some.inj hx
        exact ⟨rfl, nofun⟩
      | refreshThen changed =>
        obtain ⟨-, hx⟩ := Option.ite_none_left_eq_some.1 hx
        obtain rfl := Option.some.inj hx
        exact ⟨rfl, nofun⟩
      | _ => cases hx
    have hwork := Board.load_work_after hf hx hrequest.2
    rw [hrequest.1] at hwork
    exact hwork

/-- A step of a call leads to one more request or resolution at most, and only the last one. -/
theorem Board.load_called (hf : Short flights) (b : Board) (c : Call) :
    (b.after (.called c)).load flights ≤
      b.load flights + if (c.step b).rest.isLeft then 0 else 5 := by
  have hwork := b.load_work_called hf c
  have hone : 5 * (Step.called c).revalidates.toNat +
      (if (b.signal (.called c)).isSome then 4 else 0) ≤
        if (c.step b).rest.isLeft then 0 else 5 := by
    cases c with
    | refreshThen changed => cases changed <;> simp [Step.revalidates, Board.signal, Call.step]
    | _ => simp [Step.revalidates, Board.signal, Call.step]
  rw [b.load_after, Board.load]
  show 5 * (b.resolutions.length + _) + _ ≤ _
  omega

/-- A whole call leads to one more request or resolution at most. -/
theorem Board.load_run (hf : Short flights) (b : Board) (c : Call) :
    (c.run b).1.load flights ≤ b.load flights + 5 := by
  fun_induction Call.run b c with
  | case1 b c reply h =>
    have hstep := b.load_called hf c
    rw [h] at hstep
    exact hstep
  | case2 b c rest h ih =>
    have hstep := b.load_called hf c
    rw [h] at hstep
    exact Nat.le_trans ih (Nat.add_le_add_right hstep 5)

/-- The host's reactions are part of what is ahead, so a delivery adds nothing. -/
theorem Attended.load_le {b' : Board} {rs rs' : List Reaction} (ha : Attended b rs b' rs')
    (hf : Short flights) :
    5 * rs'.length + b'.load flights ≤ 5 * rs.length + b.load flights := by
  induction ha with
  | refl => exact Nat.le_refl _
  | deliver _ _ ih => exact ih
  | @react b' rs' others c _ hlt ih =>
    have hrun := b'.load_run hf c
    omega

end

/-! ## The load of a timeline -/

namespace Timeline

/-- How often work goes on at most before nothing is left to do. -/
def load (t : Timeline) : Nat := 5 * t.reactions.length + t.board.load t.flights

section
variable {project : Project} {settings : Settings} {t : Timeline} {s : Scan}

theorem load_act_le (hf : Short t.flights) (s : Step) :
    (t.act s).load ≤ 5 * t.reactions.length + (t.board.after s).load t.flights := by
  obtain ⟨b, rs, log, he, ha⟩ := t.act_attended s
  rw [he]
  exact ha.load_le hf

theorem flights_act (t : Timeline) (s : Step) : (t.act s).flights = t.flights := by
  obtain ⟨b, rs, log, he, -⟩ := t.act_attended s
  rw [he]

theorem load_finish_lt (hb : (Board.start project settings).Reaches t.board)
    (hf : Short t.flights) (hs : s ∈ t.board.scans) (result : Except ScanError Collection) :
    (t.finish s result).load < t.load := by
  have hact := load_act_le hf (.scanFinished s.id (result.map s.result))
  have hfinished := hb.load_finished_lt hf hs (result.map s.result)
  unfold finish load at *
  omega

theorem load_land_lt (hf : Short t.flights) {r : Resolution} (hr : r ∈ t.board.resolutions) :
    (t.land r).load < t.load := by
  have hact := load_act_le hf
    (.resolutionLanded r (Project.resolve t.stage.fileSystem r.root r.overrides))
  have hlanded := Board.load_landed_lt hf hr (Project.resolve t.stage.fileSystem r.root r.overrides)
  unfold land load at *
  omega

theorem load_fire_lt (hb : (Board.start project settings).Reaches t.board)
    (hf : Short t.flights) {timer : Timer} (ht : t.board.timer = some timer) :
    (t.act (.timerFired timer.generation)).load < t.load := by
  have hact := load_act_le hf (.timerFired timer.generation)
  have hfired := hb.load_fired_lt hf ht
  unfold load at *
  omega

theorem progressOf_cons (p : Progress) (flights : List Flight) (s : Scan) :
    progressOf (⟨s, p⟩ :: flights) s = p := by
  simp [progressOf]

/-- A scan that goes on to wait has come further. -/
theorem load_note_lt (hb : (Board.start project settings).Reaches t.board)
    (hs : s ∈ t.board.scans) {p : Progress}
    (hp : p.resumptions < (progressOf t.flights s).resumptions) : (t.note s p).load < t.load := by
  simp only [load, note, Board.load, Work.load, Board.work_scans, hb.scans_eq hs,
    resumptions_singleton, progressOf_cons]
  omega

theorem flights_call (t : Timeline) (c : Call) : (t.call c).1.flights = t.flights := by
  fun_induction call t c with
  | case1 t c acted reply => exact flights_act t _
  | case2 t c acted rest _ ih => exact ih.trans (flights_act t _)

/-! ## Pieces of work -/

theorem alarmOf_of_eq {a : Alarm} {timer : Timer} (h : a.generation = timer.generation)
    (now : Nat) : alarmOf now (some a) timer = a := by
  rw [alarmOf, Option.filter_some, if_pos (decide_eq_true h)]
  rfl

theorem alarmOf_generation (now : Nat) (alarm : Option Alarm) (timer : Timer) :
    (alarmOf now alarm timer).generation = timer.generation := by
  unfold alarmOf
  cases h : alarm.filter (·.generation = timer.generation) with
  | none => rfl
  | some a => exact of_decide_eq_true (Option.filter_eq_some_iff.1 h).2

/-- A timeline that knows of what its board started and cancelled. -/
structure Synced (t : Timeline) : Prop where
  flights : t.flights = t.board.scans.map fun s => ⟨s, progressOf t.flights s⟩
  alarm : t.alarm.map Alarm.generation = t.board.timer.map Timer.generation

theorem synced_sync (hb : (Board.start project settings).Reaches t.board) : t.sync.Synced where
  flights := by
    refine List.map_congr_left fun s hs => ?_
    rw [sync, hb.scans_eq hs, List.map_singleton, progressOf_cons]
  alarm := by
    rw [sync, Option.map_map]
    exact Option.map_congr fun timer _ => alarmOf_generation t.now t.alarm timer

theorem Synced.sync_eq (h : t.Synced) : t.sync = t := by
  have halarm : t.board.timer.map (alarmOf t.now t.alarm) = t.alarm := by
    have hgeneration := h.alarm
    cases hb : t.board.timer with
    | none =>
      rw [hb, Option.map_none, Option.map_eq_none_iff] at hgeneration
      exact hgeneration.symm
    | some timer =>
      rw [hb, Option.map_some, Option.map_eq_some_iff] at hgeneration
      obtain ⟨a, ha, he⟩ := hgeneration
      rw [ha, Option.map_some, alarmOf_of_eq he]
  unfold sync
  rw [halarm, ← h.flights]

/-- The clock has no part in that. -/
theorem Synced.at (h : t.Synced) (now : Nat) : ({ t with now } : Timeline).Synced := ⟨h.1, h.2⟩

/-- A timeline that takes note of its board has the load it had before. -/
theorem load_sync (hb : (Board.start project settings).Reaches t.board) :
    t.sync.load = t.load := by
  have hscans : resumptions t.sync.flights t.board.scans =
      resumptions t.flights t.board.scans := by
    cases hs : t.board.scans with
    | nil => rfl
    | cons s scans =>
      have hone := hb.scans_eq (s := s) (hs ▸ .head _)
      rw [← hs, hone, resumptions_singleton, resumptions_singleton, sync, hone, List.map_singleton,
        progressOf_cons]
  unfold load Board.load Work.load
  show _ + (_ + (_ + resumptions _ t.board.scans)) = _
  rw [hscans]
  rfl

theorem short_sync (hf : Short t.flights) : Short t.sync.flights := by
  intro f hm
  obtain ⟨s, -, rfl⟩ := List.mem_map.1 hm
  exact hf.resumptions_le s

/-- A scan that goes on has less ahead of it. -/
theorem load_resume_lt (hb : (Board.start project settings).Reaches t.board)
    (hf : Short t.flights) (ht : t.Synced) {f : Flight} (hm : f ∈ t.flights) :
    Short (t.resume f).flights ∧ (t.resume f).load < t.load := by
  obtain ⟨s, hs, rfl⟩ := List.mem_map.1 (ht.flights ▸ hm)
  rcases t.resume_cases ⟨s, progressOf t.flights s⟩ with ⟨log, result, he⟩ | ⟨log, p, hp, he⟩
  · rw [he]
    refine ⟨?_, load_finish_lt (t := { t with log }) hb hf hs result⟩
    rw [finish, flights_act]
    exact hf
  · rw [he]
    refine ⟨?_, load_note_lt (t := { t with log }) hb hs hp⟩
    have hshort := hf.resumptions_le s
    refine List.forall_mem_cons.2 ⟨Nat.le_of_lt (Nat.lt_of_lt_of_le hp hshort), ?_⟩
    exact fun f hm => hf f (List.mem_filter.1 hm).1

theorem load_foldl_land_lt (hb : (Board.start project settings).Reaches t.board)
    (hf : Short t.flights) (hne : t.board.resolutions ≠ []) :
    Short (t.board.resolutions.foldl land t).flights ∧
      (t.board.resolutions.foldl land t).load < t.load := by
  obtain ⟨r, rs, hrs⟩ := List.exists_cons_of_ne_nil hne
  have hmem : ∀ q ∈ r :: rs, q ∈ t.board.resolutions := fun q hq => hrs ▸ hq
  have hshort (u : Timeline) (q : Resolution) (hu : Short u.flights) :
      Short (u.land q).flights := by
    rw [land, flights_act]
    exact hu
  obtain ⟨hlt, hrising⟩ := List.pairwise_cons.1 (hrs ▸ resolutions_rising hb)
  rw [hrs, List.foldl_cons]
  refine foldl_land (P := fun u => Short u.flights ∧ u.load < t.load) ?_
    (fun q hq => mem_resolutions_land (hmem q (.tail _ hq)) (hlt q hq)) hrising
    ⟨hshort t r hf, load_land_lt hf (hmem r (.head _))⟩
  rintro u q ⟨hu, hload⟩ hq
  exact ⟨hshort u q hu, Nat.lt_trans (load_land_lt hu hq) hload⟩

/-! ## Moves of the clock -/

/-- Whether there is nothing to do unless the clock is moved. -/
def rests (t : Timeline) : Bool :=
  t.readyFlight.isNone && t.dueAlarm.isNone && t.board.resolutions.isEmpty

theorem rests_iff :
    t.rests = true ↔
      t.readyFlight = none ∧ t.dueAlarm = none ∧ t.board.resolutions = [] := by
  simp [rests, and_assoc]

/-- Nothing can be done while everything that is under way waits for a later time. -/
theorem rests_iff_forall :
    t.rests = true ↔
      (∀ f ∈ t.flights, f.due ≠ none) ∧ (∀ due ∈ t.dues, t.now < due) ∧
        t.board.resolutions = [] := by
  have hwaits (f : Flight) : ¬f.due.all (· ≤ t.now) = true ↔
      f.due ≠ none ∧ ∀ due, f.due = some due → t.now < due := by
    cases f.due <;> simp
  have hready : t.readyFlight = none ↔
      (∀ f ∈ t.flights, f.due ≠ none) ∧ ∀ due ∈ t.flights.filterMap Flight.due, t.now < due := by
    simp only [readyFlight, List.find?_eq_none, hwaits, List.mem_filterMap, forall_exists_index,
      and_imp]
    exact ⟨fun h => ⟨fun f hf => (h f hf).1, fun due f hf => (h f hf).2 due⟩,
      fun h f hf => ⟨h.1 f hf, fun due => h.2 due f hf⟩⟩
  have halarm : t.dueAlarm = none ↔ ∀ due ∈ (t.alarm.map Alarm.due).toList, t.now < due := by
    cases ha : t.alarm <;> simp [dueAlarm, ha]
  rw [rests_iff, hready, halarm, dues, List.forall_mem_append]
  simp only [and_assoc]

/-- The clock moves on to a time at which something can be done. -/
theorem rests_at_due {due : Nat} (h : t.dues.min? = some due) :
    ({ t with now := due } : Timeline).rests = false := by
  refine Bool.eq_false_iff.2 fun hr => ?_
  have hlt := (rests_iff_forall.1 hr).2.1 due (List.min?_mem h)
  exact Nat.lt_irrefl _ hlt

/-- Until the next wait ends nothing can be done. -/
theorem rests_at {now : Nat} (ht : t.rests = true)
    (h : ∀ due, t.dues.min? = some due → now < due) :
    ({ t with now } : Timeline).rests = true := by
  obtain ⟨hwait, -, hrs⟩ := rests_iff_forall.1 ht
  refine rests_iff_forall.2 ⟨hwait, fun due hd => ?_, hrs⟩
  obtain ⟨first, hfirst⟩ := Option.isSome_iff_exists.1 (List.isSome_min?_of_mem hd)
  exact Nat.lt_of_lt_of_le (h first hfirst) ((List.min?_eq_some_iff.1 hfirst).2 due hd)

/-- How many pieces of work are done at most before nothing is left to do: between any two others
the clock may move once. -/
def pieces (t : Timeline) : Nat := 2 * t.load + t.rests.toNat

/-- Every piece of work leaves less to do. -/
theorem pieces_work_lt {t' : Timeline} {target : Nat}
    (hb : (Board.start project settings).Reaches t.board) (hf : Short t.flights)
    (hw : t.sync.work? target = some t') :
    Short t'.flights ∧ t'.sync.pieces < t.sync.pieces := by
  have hshort := short_sync hf
  have hsynced := synced_sync hb
  have hless (hload : t'.load < t.sync.load) : t'.sync.pieces < t.sync.pieces := by
    have hrests := t'.sync.rests.toNat_le
    unfold pieces
    rw [load_sync (work_reaches hb hw)]
    omega
  obtain ⟨f, hm, rfl⟩ | ⟨a, ha, rfl⟩ | ⟨hne, rfl⟩ | ⟨hrests, due, hdue, -, rfl⟩ := work_cases hw
  · obtain ⟨hs, hload⟩ := load_resume_lt (t := t.sync) hb hshort hsynced hm
    exact ⟨hs, hless hload⟩
  · have hgeneration := hsynced.alarm
    rw [ha, Option.map_some, eq_comm, Option.map_eq_some_iff] at hgeneration
    obtain ⟨timer, ht, he⟩ := hgeneration
    rw [← he] at hless ⊢
    rw [flights_act]
    exact ⟨hshort, hless (load_fire_lt (t := t.sync) hb hshort ht)⟩
  · obtain ⟨hs, hload⟩ := load_foldl_land_lt (t := t.sync) hb hshort hne
    exact ⟨hs, hless hload⟩
  · refine ⟨hshort, ?_⟩
    have hmoved := (hsynced.at due).sync_eq
    unfold pieces
    rw [hmoved, rests_at_due hdue, rests_iff.2 hrests]
    exact Nat.lt_succ_self _

/-- With enough pieces of work allowed, work ends only when none is left. -/
theorem workUntil_ends (target : Nat) {fuel : Nat}
    (hb : (Board.start project settings).Reaches t.board) (hf : Short t.flights)
    (hfuel : t.sync.pieces < fuel) :
    Short (workUntil target fuel t).flights ∧ (workUntil target fuel t).Synced ∧
      (workUntil target fuel t).work? target = none := by
  induction fuel generalizing t with
  | zero => exact absurd hfuel (Nat.not_lt_zero _)
  | succ fuel ih =>
    unfold workUntil
    cases hw : t.sync.work? target with
    | none => exact ⟨short_sync hf, synced_sync hb, hw⟩
    | some t' =>
      obtain ⟨hshort, hlt⟩ := pieces_work_lt hb hf hw
      exact ih (work_reaches hb hw) hshort (Nat.lt_of_lt_of_le hlt (Nat.le_of_lt_succ hfuel))

theorem rests_of_work_eq_none {target : Nat} (h : t.work? target = none) :
    t.rests = true ∧ ∀ due, t.dues.min? = some due → target < due := by
  unfold work? at h
  split at h
  · cases h
  · cases h
  · cases h
  · next hf ha hrs =>
    refine ⟨rests_iff.2 ⟨hf, ha, hrs⟩, fun due hdue => ?_⟩
    rw [hdue] at h
    simpa using h

theorem pieces_lt_workBound (hb : (Board.start project settings).Reaches t.board)
    (hf : Short t.flights) : t.sync.pieces < t.workBound := by
  have hrests := t.sync.rests.toNat_le
  have hpending := t.board.machine.pending.toNat_le
  have hscans := hf.resumptions_scans_le t.board.scans
  have htimer : t.board.timer.toList.length ≤ 1 := by
    cases t.board.timer <;> simp
  unfold pieces workBound
  rw [load_sync hb]
  simp only [load, Board.load, Work.load, Board.work_timer, Board.work_control, Board.work_scans,
    Machine.control_pending]
  omega

end

end Timeline

/-! ## Moving the clock -/

section
variable {project : Project} {settings : Settings} {stage : Stage} {rs : List Reaction}
variable {t : Timeline}

theorem Played.short (hp : Played (.start (.start project settings) stage rs) t) :
    Short t.flights := by
  induction hp with
  | refl => exact fun _ hf => absurd hf List.not_mem_nil
  | call c _ ih =>
    rw [flights_call]
    exact ih
  | advance ms hp ih =>
    have hb := hp.life
    exact short_sync (workUntil_ends _ hb ih (pieces_lt_workBound hb ih)).1
  | takeLog _ ih => exact ih
  | restage stage _ ih => exact ih

/-- When the clock was moved, nothing is left that could be done by then. -/
theorem Played.rests_advance (hp : Played (.start (.start project settings) stage rs) t)
    (ms : Nat) : (t.advance ms).rests = true := by
  have hb := hp.life
  have hf := hp.short
  obtain ⟨-, hsynced, hnone⟩ := workUntil_ends (t.now + ms) hb hf (pieces_lt_workBound hb hf)
  obtain ⟨hrests, hlater⟩ := rests_of_work_eq_none hnone
  unfold Timeline.advance
  rw [(hsynced.at (t.now + ms)).sync_eq]
  exact rests_at hrests hlater

end

end ProblemBoard.Refresh
