import ProblemBoard.Proofs.Refresh.Contents
import ProblemBoard.Proofs.Refresh.Pause
import ProblemBoard.Proofs.View.Arrangement

/-!
# The badge

A scan is *live* while it runs unmarked: then its result will be shown, and the badge tells of
the scan.  Otherwise the badge counts the errors of the board.  A step that changes which of the
two holds, or the errors, brings the badge that fits, and a step that brings none changes
neither.  Another arrangement changes the tree but not the number of its errors, and it brings no
badge.
-/

namespace ProblemBoard.Refresh

/-! ## Live scans -/

/-- Whether a scan runs that is not marked. -/
def Control.live (c : Control) : Bool := c.phase = .scanning && !c.discard

theorem Control.live_iff {c : Control} :
    c.live = true ↔ c.phase = .scanning ∧ c.discard = false := by
  simp [live]

theorem Turn.live_of_startScan {m m' : Machine} {x : Signal} (h : Turn m x m' .startScan)
    (hd : m.discard = false) : m'.control.live = true := by
  cases h with
  | start | fire | resume => exact Control.live_iff.2 ⟨rfl, hd⟩

/-- A pause marks the scan that runs. -/
theorem Turn.live_of_paused {m m' : Machine} {x : Signal} (h : Turn m x m' .paused) :
    m'.control.live = false := by
  cases h with
  | pauseIdle _ hs => simp [Control.live, hs]
  | pauseDebouncing => rfl
  | pauseScanning => simp [Control.live]

theorem Turn.live_of_finished {m m' : Machine} {a : Action} (h : Turn m .finished m' a) :
    m'.control.live = false := by
  cases h with
  | settle | followUp => rfl

/-- Other turns neither start nor mark a scan. -/
theorem Turn.live_of_ne {m m' : Machine} {x : Signal} {a : Action} (h : Turn m x m' a)
    (hx : x ≠ .finished) (hs : a ≠ .startScan) (hp : a ≠ .paused) :
    m'.control.live = m.control.live := by
  cases h with
  | arm _ hn => simp [Control.live, hn]
  | start | fire | resume => exact absurd rfl hs
  | pauseIdle | pauseDebouncing | pauseScanning => exact absurd rfl hp
  | settle | followUp => exact absurd rfl hx
  | mutedRefresh | mutedImmediate | queueRefresh | queueImmediate | stale | still
  | resumeScanning => rfl

section
variable {project : Project} {settings : Settings} {h : List Moment} {b : Board}

/-- During a pause no scan is live. -/
theorem Run.not_live_of_paused (hr : Run (.start project settings) h b)
    (hp : b.machine.paused = true) : b.machine.control.live = false := by
  induction hr with
  | refl => cases hp
  | deliver _ _ ih => exact ih hp
  | @step h b s _ ha ih =>
    rw [b.paused_after ha] at hp
    rw [b.control_after ha]
    cases hx : b.signal s with
    | none =>
      rw [b.response_of_silent hx] at hp ⊢
      exact ih hp
    | some x =>
      have ht := b.turn hx
      rcases Board.of_paused hp with hact | ⟨hm, hact⟩
      · exact (hact ▸ ht).live_of_paused
      · by_cases hf : x = .finished
        · exact (hf ▸ ht).live_of_finished
        · rw [ht.live_of_ne hf (by simp [hact]) (by simp [hact])]
          exact ih hm

/-! ## What brings a badge -/

/-- The number of errors a board holds. -/
def Contents.errors (c : Contents) : Nat := c.problems.countP fun p => p.severity.isError

/-- The badge that fits. -/
def badgeFor (c : Control) (held : Contents) : Badge :=
  if c.live then .scanning else .ofErrors held.errors

/-- The end of a scan that is shown brings the number of its errors. -/
theorem Board.lastBadge_news {result : Except ScanError ScanResult} {id : Nat}
    (ha : b.Admits (.scanFinished id result)) :
    lastBadge (b.news result) = some (.ofErrors (Contents.ofResult result).errors) := by
  cases result with
  | error e => rfl
  | ok r =>
    obtain ⟨s, -, -, hc⟩ := ha
    obtain ⟨c, rfl⟩ := hc r rfl
    have hcount : (b.viewOf (s.result c)).errorCount =
        (Contents.ofResult (.ok (s.result c))).errors := by
      unfold Board.viewOf
      split <;> exact View.errorCount_arrange _ _ _
    rw [← hcount]
    exact lastBadge_append_of_some rfl

/-- A step that is not the end of a scan says nothing of a badge of its own. -/
theorem Board.badge?_of_told {s : Step} (hx : b.signal s ≠ some .finished) :
    ∀ e ∈ b.told s, e.badge? = none := by
  have hr : ∀ mode, ∀ e ∈ b.rearranged mode, e.badge? = none := by
    intro mode e he
    unfold Board.rearranged at he
    split at he
    · cases he
    · rw [List.mem_singleton.1 he]
      rfl
  intro e he
  unfold Board.told at he
  split at he
  · exact hr _ e he
  · exact hr _ e he
  · obtain ⟨p, -, rfl⟩ := List.mem_map.1 he
    rfl
  · exact absurd rfl hx
  · cases he

theorem Action.effects_of_ne {a : Action} (hs : a ≠ .startScan) (hp : a ≠ .paused) :
    a.effects = [] := by
  cases a with
  | startScan => exact absurd rfl hs
  | paused => exact absurd rfl hp
  | none | queued | armTimer => rfl

theorem lastBadge_of_none {es : List Effect} (h : ∀ e ∈ es, e.badge? = none) :
    lastBadge es = none := by
  rw [lastBadge, List.filterMap_eq_nil_iff.2 h]
  rfl

/-- Whether a step leaves alone what the badge tells of. -/
def KeepsBadge (b : Board) (s : Step) : Prop :=
  (b.response s).1.control.live = b.machine.control.live ∧ (b.after s).contents = b.contents

/-- The end of a live scan brings the badge that fits, and that of a marked one none. -/
theorem Board.lastBadge_finished {id : Nat} {result : Except ScanError ScanResult}
    (hc : Coherent b.work) (hq : b.machine.paused = true → b.machine.control.live = false)
    (ha : b.Admits (.scanFinished id result)) :
    lastBadge (Moment.pushed ⟨b, .scanFinished id result⟩) =
        some (badgeFor (b.response (.scanFinished id result)).1.control
          (b.after (.scanFinished id result)).contents) ∨
      lastBadge (Moment.pushed ⟨b, .scanFinished id result⟩) = none ∧
        KeepsBadge b (.scanFinished id result) := by
  have ht := b.turn (s := .scanFinished id result) rfl
  have hne := ht.ne_of_finished
  have hpub : b.machine.scanFinished.2.publish = b.machine.control.live := by
    have hs := (hc.left_of_finished ha rfl).1
    rw [Machine.scanFinished_publish]
    cases hp : b.machine.paused with
    | true => rw [hq hp, Bool.not_true, Bool.and_false]
    | false => simp [Control.live, hs]
  have hcont : (b.after (.scanFinished id result)).contents =
      if b.machine.control.live then .ofResult result else b.contents := by
    rw [b.contents_after, if_neg hne.2, ← hpub]
    rfl
  have htold : Moment.pushed ⟨b, .scanFinished id result⟩ =
      if b.machine.control.live then b.news result else [] := by
    rw [Moment.pushed_mk, Action.effects_of_ne hne.1 hne.2, List.append_nil, ← hpub]
    rfl
  rw [KeepsBadge, htold, hcont, ht.live_of_finished]
  cases hl : b.machine.control.live with
  | true =>
    left
    rw [badgeFor, ht.live_of_finished]
    exact Board.lastBadge_news ha
  | false => exact .inr ⟨rfl, rfl, rfl⟩

/-- A step either brings the badge that fits after it, or brings none and leaves alone what the
badge tells of. -/
theorem Board.lastBadge_pushed {s : Step} (hc : Coherent b.work)
    (hq : b.machine.paused = true → b.machine.control.live = false) (ha : b.Admits s) :
    lastBadge (Moment.pushed ⟨b, s⟩) =
        some (badgeFor (b.response s).1.control (b.after s).contents) ∨
      lastBadge (Moment.pushed ⟨b, s⟩) = none ∧ KeepsBadge b s := by
  by_cases hf : b.signal s = some .finished
  · obtain ⟨id, result, rfl⟩ := b.scanFinished_of_signal hf
    exact Board.lastBadge_finished hc hq ha
  have htold := b.badge?_of_told hf
  rw [Moment.pushed_mk]
  by_cases hs : b.action s = .startScan
  · left
    obtain ⟨x, -, ht⟩ := b.turn_of_action hs nofun
    have hd : b.machine.discard = false := by
      apply Bool.eq_false_iff.2
      intro hd
      exact ht.phase_of_startScan (hc.discard hd)
    rw [badgeFor, ht.live_of_startScan hd, hs]
    exact lastBadge_append_of_some rfl
  by_cases hp : b.action s = .paused
  · left
    obtain ⟨x, -, ht⟩ := b.turn_of_action hp nofun
    rw [badgeFor, ht.live_of_paused, b.contents_after, if_pos hp, hp]
    exact lastBadge_append_of_some rfl
  · right
    rw [Action.effects_of_ne hs hp, List.append_nil]
    refine ⟨lastBadge_of_none htold, ?_, b.contents_after_of_ne hp hf⟩
    cases hx : b.signal s with
    | none => rw [b.response_of_silent hx]
    | some x =>
      refine (b.turn hx).live_of_ne ?_ hs hp
      rintro rfl
      exact hf hx

/-! ## Runs -/

/-- The last badge fits, or there was none and there is nothing it could tell of. -/
theorem Run.lastBadge_fits (hr : Run (.start project settings) h b) :
    lastBadge (pushed h) = some (badgeFor b.machine.control b.contents) ∨
      lastBadge (pushed h) = none ∧ b.machine.control.live = false ∧ b.contents = .empty := by
  induction hr with
  | refl => exact .inr ⟨rfl, rfl, rfl⟩
  | deliver _ _ ih => exact ih
  | @step h b s hr ha ih =>
    have hcontrol := b.control_after ha
    rw [pushed_cons, hcontrol]
    rcases Board.lastBadge_pushed hr.coherent hr.not_live_of_paused ha with hb | ⟨hb, hl, hcont⟩
    · exact .inl (lastBadge_append_of_some hb)
    · have hsame : lastBadge (pushed h ++ Moment.pushed ⟨b, s⟩) = lastBadge (pushed h) := by
        refine lastBadge_append_of_none ?_
        rw [lastBadge, List.getLast?_eq_none_iff] at hb
        exact List.filterMap_eq_nil_iff.1 hb
      rw [hsame, hl, hcont, badgeFor, hl]
      exact ih

/-- The errors a board holds are those of its tree, however it is arranged. -/
theorem Run.errorCount (hr : Run (.start project settings) h b) :
    b.view.errorCount = b.contents.errors := by
  have hv : b.view = .arrange b.problems b.mode b.project.root := hr.agrees.view
  rw [hv]
  exact View.errorCount_arrange _ _ _

/-- In every run the last badge tells of the scan while one runs that is not marked for being
dropped.  Otherwise it is the badge for the errors of the tree that is shown, or there was no
badge yet and nothing is shown. -/
theorem badge_truthful (hr : Run (.start project settings) h b) :
    (b.machine.phase = .scanning ∧ b.machine.discard = false →
        lastBadge (pushed h) = some .scanning) ∧
      (¬(b.machine.phase = .scanning ∧ b.machine.discard = false) →
        lastBadge (pushed h) = some (.ofErrors b.view.errorCount) ∨
          lastBadge (pushed h) = none ∧ b.view = .empty b.mode) := by
  have hfit := hr.lastBadge_fits
  constructor
  · intro hs
    have hl : b.machine.control.live = true := Control.live_iff.2 hs
    rw [badgeFor, hl] at hfit
    rcases hfit with hb | ⟨-, hf, -⟩
    · exact hb
    · cases hf
  · intro hs
    have hl : b.machine.control.live = false :=
      Bool.eq_false_iff.2 fun hl => hs (Control.live_iff.1 hl)
    rw [badgeFor, hl, ← hr.errorCount] at hfit
    rcases hfit with hb | ⟨hb, -, hempty⟩
    · exact .inl hb
    · have hv : b.view = .arrange b.problems b.mode b.project.root := hr.agrees.view
      have hps : b.problems = [] := congrArg Contents.problems hempty
      rw [hps, View.arrange_nil] at hv
      exact .inr ⟨hb, hv⟩

end

/-- The badge tells of the first scan while it runs, then of the one error it found, and still
does when the tree is arranged another way. -/
theorem badge_truthful_regrouped :
    ∃ h₀ b₀ h₁ h b p, Run (.start (.bare ⟨"/work"⟩) .default) h₀ b₀ ∧
      b₀.machine.phase = .scanning ∧ lastBadge (pushed h₀) = some .scanning ∧
      Run (.start (.bare ⟨"/work"⟩) .default) (h₁ ++ h₀) b ∧ h = h₁ ++ h₀ ∧ h.length = 3 ∧
      b.machine.phase = .idle ∧ b.view = .arrange [p] .rule ⟨"/work"⟩ ∧
      lastBadge (pushed h) = some (.count 1) := by
  let p : Problem := ⟨⟨"/work/a.ts"⟩, .point ⟨0, 0⟩, .error, "missing name", "tsc", some "2304"⟩
  have hr₀ : Run (.start (.bare ⟨"/work"⟩) .default) [_] _ :=
    Run.refl.step (.called .requestImmediate) trivial
  have hr : Run (.start (.bare ⟨"/work"⟩) .default) ([_, _] ++ [_]) _ :=
    (hr₀.step (.scanFinished 1 (.ok (Scan.result ⟨1, .bare ⟨"/work"⟩, _, _⟩ ⟨[p], [], []⟩)))
      ⟨_, .head _, rfl, fun _ hok => ⟨_, (Except.ok.inj hok).symm⟩⟩).step
      (.called (.setMode .rule)) trivial
  have hcount : (View.arrange [p] .rule ⟨"/work"⟩).errorCount = 1 := by
    rw [View.errorCount_arrange]
    rfl
  refine ⟨_, _, _, _, _, p, hr₀, rfl, (badge_truthful hr₀).1 ⟨rfl, rfl⟩, hr, rfl, rfl, rfl, rfl, ?_⟩
  rcases (badge_truthful hr).2 (by rintro ⟨hs, -⟩; cases hs) with hb | ⟨-, hv⟩
  · have hbadge : Badge.ofErrors (View.arrange [p] .rule ⟨"/work"⟩).errorCount = .count 1 := by
      rw [hcount]
      rfl
    exact hb.trans (congrArg some hbadge)
  · have hzero : (View.arrange [p] .rule ⟨"/work"⟩).errorCount = 0 := congrArg View.errorCount hv
    omega

end ProblemBoard.Refresh
