import ProblemBoard.Proofs.Refresh.Calls
import ProblemBoard.Proofs.Refresh.Frame

/-!
# Preferences

The *preferences* of a board are what new settings bring: the filters, the waiting times, the
named configurations and the group mode.  A call with new settings takes over all but the mode
with its first step, and the mode with its second.  `Board.preferences_after` says once what a
step does to them.

Along a course every mode that was asked for has been taken over or is still awaited, and no
other mode is ever taken over.  So when nothing is under way, all preferences but the mode are
those of the call that began last, and the mode is that of some call.  It is that of the same
call if no other one was half done when it began; else it need not be.
-/

namespace ProblemBoard.Refresh

/-- What new settings bring to a board. -/
structure Preferences where
  filters : Filters
  timings : Timings
  overrides : Overrides
  mode : GroupMode

/-- What settings ask for. -/
def Preferences.ofSettings (s : Settings) : Preferences :=
  ⟨.ofSettings s, s.refresh, .ofSettings s, s.view.groupBy⟩

/-- What a board goes by. -/
def Board.preferences (b : Board) : Preferences :=
  ⟨b.filters, b.machine.timings, b.overrides, b.mode⟩

/-! ## Parts of steps -/

/-- The machine keeps its waiting times. -/
theorem Turn.timings {m m' : Machine} {x : Signal} {a : Action} (h : Turn m x m' a) :
    m'.timings = m.timings := by
  cases h <;> rfl

@[simp] theorem Board.preferences_apply (b : Board) (a : Action) :
    (b.apply a).preferences = b.preferences := by
  cases a <;> rfl

theorem Board.preferences_turn {b : Board} {m : Machine} {x : Signal} {a : Action}
    (ht : Turn b.machine x m a) : { b with machine := m }.preferences = b.preferences := by
  simp [Board.preferences, ht.timings]

theorem Board.preferences_transition {b : Board} {f : Machine → Machine × Action} {x : Signal}
    (ht : Turn b.machine x (f b.machine).1 (f b.machine).2) :
    (b.transition f).preferences = b.preferences :=
  (Board.preferences_apply _ _).trans (Board.preferences_turn ht)

theorem Board.preferences_scanFinished (b : Board) (id : Nat)
    (result : Except ScanError ScanResult) :
    (b.scanFinished id result).preferences = b.preferences := by
  obtain ⟨_, _, _, _, _, _, _, he⟩ := b.scanFinished_frame id result
  rw [he, Board.preferences_apply]
  simp [Board.preferences, b.machine.scanFinished_turn.timings]

theorem Board.preferences_setMode (b : Board) (mode : GroupMode) :
    (b.setMode mode).preferences = { b.preferences with mode } := by
  obtain ⟨_, _, _, he⟩ := b.setMode_frame mode
  rw [he]
  rfl

theorem Board.preferences_navigate (b : Board) (move : Cursor.Move) :
    (b.navigate move).1.preferences = b.preferences := by
  obtain ⟨_, _, he⟩ := b.navigate_frame move
  rw [he]
  rfl

/-! ## Whole steps -/

/-- What a board goes by after a step. -/
def Board.preferencesAfter (b : Board) : Step → Preferences
  | .called (.setMode mode) => { b.preferences with mode }
  | .called (.updateSettings s) => { Preferences.ofSettings s with mode := b.mode }
  | .called (.regroupThen mode _) => { b.preferences with mode }
  | _ => b.preferences

/-- What a step does to what a board goes by. -/
theorem Board.preferences_after (b : Board) (s : Step) :
    (b.after s).preferences = b.preferencesAfter s := by
  cases s with
  | called c =>
    cases c with
    | requestRefresh => exact Board.preferences_transition b.machine.requestRefresh_turn
    | requestImmediate => exact Board.preferences_transition b.machine.requestImmediate_turn
    | setPaused paused => exact Board.preferences_transition (b.machine.setPaused_turn paused)
    | togglePause =>
      exact Board.preferences_transition (b.machine.setPaused_turn !b.machine.paused)
    | setMode mode | regroupThen mode => exact b.preferences_setMode mode
    | refreshThen changed =>
      cases changed with
      | true => rfl
      | false => exact Board.preferences_transition b.machine.requestRefresh_turn
    | navigate move => exact b.preferences_navigate move
    | isPaused | updateSettings | revalidate | project | shutdown => rfl
  | timerFired g =>
    exact (Board.preferences_apply _ _).trans
      (Board.preferences_turn (b.machine.timerElapsed_turn g))
  | scanFinished id result => exact b.preferences_scanFinished id result
  | resolutionLanded r project =>
    show (b.resolutionLanded r project).preferences = b.preferences
    by_cases h : r.revision = b.revision
    · rw [Board.resolutionLanded_of_eq h]
      exact Board.preferences_transition b.machine.requestImmediate_turn
    · rw [Board.resolutionLanded_of_ne h]
      rfl

theorem Board.mode_after (b : Board) (s : Step) :
    (b.after s).mode = (b.preferencesAfter s).mode :=
  congrArg Preferences.mode (b.preferences_after s)

/-! ## What was asked for along a run -/

/-- The settings whose first step was taken at a moment. -/
def Moment.adopted? (m : Moment) : Option Settings :=
  match m.step with
  | .called (.updateSettings s) => some s
  | _ => none

/-- The mode that was taken over from settings at a moment. -/
def Moment.regrouped? (m : Moment) : Option GroupMode :=
  match m.step with
  | .called (.regroupThen mode _) => some mode
  | _ => none

/-- The mode that is taken over with the next step of a call. -/
def Call.awaited? : Call → Option GroupMode
  | .regroupThen mode _ => some mode
  | _ => none

/-- The settings whose first step was taken in the course of some moments, newest first. -/
def adopted (h : List Moment) : List Settings := h.filterMap Moment.adopted?

/-- The modes that were taken over from settings in the course of some moments, newest first. -/
def regrouped (h : List Moment) : List GroupMode := h.filterMap Moment.regrouped?

/-- The modes that calls under way will take over. -/
def awaited (cs : List Call) : List GroupMode := cs.filterMap Call.awaited?

@[simp] theorem awaited_append (cs ds : List Call) :
    awaited (cs ++ ds) = awaited cs ++ awaited ds :=
  List.filterMap_append

@[simp] theorem awaited_regroupThen (mode : GroupMode) (changed : Bool) (cs : List Call) :
    awaited (.regroupThen mode changed :: cs) = mode :: awaited cs := rfl

@[simp] theorem awaited_refreshThen (changed : Bool) (cs : List Call) :
    awaited (.refreshThen changed :: cs) = awaited cs := rfl

@[simp] theorem awaited_nil : awaited [] = [] := rfl

/-- Whether the mode changes at a moment without new settings. -/
def Moment.changesMode (m : Moment) : Bool :=
  match m.step with
  | .called (.setMode mode) => mode != m.board.mode
  | _ => false

section
variable {b₀ b : Board} {h later earlier : List Moment} {cs : List Call} {m : Moment}
variable {project : Project} {settings : Settings}

/-- All but the mode is that of the settings that were adopted last. -/
theorem Run.preferences (hr : Run (.start project settings) h b) :
    b.preferences =
      { Preferences.ofSettings ((adopted h).head?.getD settings) with mode := b.mode } := by
  induction hr with
  | refl => rfl
  | deliver _ _ ih => exact ih
  | @step h b s _ _ ih =>
    rw [b.preferences_after, b.mode_after]
    cases s with
    | called c =>
      cases c with
      | updateSettings t => rfl
      | setMode mode | regroupThen mode =>
        exact congrArg (fun p : Preferences => { p with mode }) ih
      | _ => exact ih
    | _ => exact ih

/-- The mode is the one that was taken over last. -/
theorem Run.mode (hr : Run (.start project settings) h b)
    (hm : ∀ m ∈ h, m.changesMode = false) :
    b.mode = (regrouped h).head?.getD settings.view.groupBy := by
  induction hr with
  | refl => rfl
  | deliver _ _ ih => exact ih hm
  | @step h b s _ _ ih =>
    have ih := ih fun m hmem => hm m (.tail _ hmem)
    rw [b.mode_after]
    cases s with
    | called c =>
      cases c with
      | setMode mode =>
        have hsame : (mode != b.mode) = false := hm _ (.head _)
        have hsame : mode = b.mode := by simpa using hsame
        exact hsame.trans ih
      | regroupThen mode => rfl
      | _ => exact ih
    | _ => exact ih

/-- Every mode that settings ask for is awaited until it is taken over, and no other mode is.  The
step that takes it over moves it from those awaited to those taken over. -/
theorem Course.awaited_perm (hc : Course b₀ h cs b) :
    (awaited cs ++ regrouped h).Perm ((adopted h).map (·.view.groupBy)) := by
  induction hc with
  | refl => exact .nil
  | deliver _ _ ih => exact ih
  | @begin h cs b c _ hw _ ih =>
    cases c with
    | updateSettings s =>
      show (awaited (cs ++ [_]) ++ regrouped h).Perm (s.view.groupBy :: (adopted h).map _)
      rw [awaited_append, awaited_regroupThen, List.append_assoc]
      exact List.perm_middle.trans (ih.cons _)
    | regroupThen | refreshThen => cases hw
    | _ =>
      show (awaited (cs ++ []) ++ regrouped h).Perm _
      rw [List.append_nil]
      exact ih
  | @other h cs b s _ _ hs ih =>
    cases s with
    | called => cases hs
    | timerFired | scanFinished | resolutionLanded => exact ih
  | @goOn h b c cs ds hc ih =>
    have hw := hc.not_isWhole c (List.mem_append_right _ (.head _))
    cases c with
    | regroupThen mode changed =>
      rw [awaited_append, awaited_regroupThen, List.append_assoc, List.cons_append] at ih
      show (awaited (cs ++ [.refreshThen changed] ++ ds) ++ mode :: regrouped h).Perm _
      rw [awaited_append, awaited_append, awaited_refreshThen, awaited_nil, List.append_nil]
      refine .trans ?_ ih
      exact List.perm_middle.trans (List.append_assoc _ _ _ ▸ List.perm_middle.symm)
    | refreshThen changed =>
      rw [awaited_append, awaited_refreshThen] at ih
      show (awaited (cs ++ [] ++ ds) ++ regrouped h).Perm _
      rw [List.append_nil, awaited_append]
      exact ih
    | _ => cases hw

theorem adopted_of_newest {s : Settings} (hs : m.step = .called (.updateSettings s))
    (hlater : adopted later = []) : adopted (later ++ m :: earlier) = s :: adopted earlier := by
  have hm : m.adopted? = some s := by rw [Moment.adopted?, hs]
  rw [adopted, List.filterMap_append, List.filterMap_cons_some hm]
  exact congrArg (· ++ s :: adopted earlier) hlater

/-- A call that began when no other one was half done, and after which none began, has its mode
taken over in the end: when it began, all modes asked for so far were taken over. -/
theorem Course.mode_of_in_turn {s : Settings}
    (hc : Course (.start project settings) (later ++ m :: earlier) [] b)
    (hm : ∀ k ∈ later ++ m :: earlier, k.changesMode = false)
    (hs : m.step = .called (.updateSettings s)) (hlater : adopted later = [])
    (hturn : (regrouped earlier).length = (adopted earlier).length) : b.mode = s.view.groupBy := by
  have hadopted : adopted (later ++ m :: earlier) = s :: adopted earlier :=
    adopted_of_newest hs hlater
  have hregrouped : regrouped (later ++ m :: earlier) = regrouped later ++ regrouped earlier := by
    have hm? : m.regrouped? = none := by rw [Moment.regrouped?, hs]
    rw [regrouped, List.filterMap_append, List.filterMap_cons_none hm?]
    rfl
  obtain ⟨cs, hearlier⟩ := hc.at_moment
  have hbefore := hearlier.awaited_perm
  have hnone : awaited cs = [] := by
    have hlength := hbefore.length_eq
    rw [List.length_append, List.length_map] at hlength
    exact List.eq_nil_of_length_eq_zero (by omega)
  rw [hnone] at hbefore
  have hall : (regrouped later ++ regrouped earlier).Perm
      ([s.view.groupBy] ++ regrouped earlier) := by
    have hend := hc.awaited_perm
    rw [hadopted, hregrouped] at hend
    exact hend.trans (hbefore.symm.cons _)
  have honly := List.perm_singleton.1 ((List.perm_append_right_iff _).1 hall)
  rw [hc.run.mode hm, hregrouped, honly]
  rfl

/-- In every course in which the mode changes through new settings only, and at whose end none
are half taken over: the filters, the waiting times and the named configurations are those of
the settings that were adopted last, and the mode is that of settings that were adopted at some
time.  It is that of the same settings if no others were half taken over when they were
adopted. -/
theorem preferences_of_newest_settings {s : Settings}
    (hc : Course (.start project settings) (later ++ m :: earlier) [] b)
    (hm : ∀ k ∈ later ++ m :: earlier, k.changesMode = false)
    (hs : m.step = .called (.updateSettings s)) (hlater : adopted later = []) :
    (∃ t ∈ adopted (later ++ m :: earlier),
      b.preferences = { Preferences.ofSettings s with mode := t.view.groupBy }) ∧
      ((regrouped earlier).length = (adopted earlier).length → b.preferences = .ofSettings s) := by
  have hadopted : adopted (later ++ m :: earlier) = s :: adopted earlier :=
    adopted_of_newest hs hlater
  have hp := hc.run.preferences
  rw [hadopted] at hp
  constructor
  · have hperm : (regrouped (later ++ m :: earlier)).Perm _ := hc.awaited_perm
    cases hr : regrouped (later ++ m :: earlier) with
    | nil =>
      rw [hr, hadopted] at hperm
      cases hperm.length_eq
    | cons mode modes =>
      rw [hr] at hperm
      obtain ⟨t, ht, hmode⟩ := List.mem_map.1 (hperm.subset (.head _))
      refine ⟨t, ht, ?_⟩
      rw [hp, hc.run.mode hm, hr, hmode]
      rfl
  · intro hturn
    rw [hp, hc.mode_of_in_turn hm hs hlater hturn]
    rfl

end

/-- Two calls with new settings, the second one begun when the first has its last step ahead: in
the end everything is as the second one asks for. -/
theorem preferences_of_newest_settings_in_turn :
    ∃ h b s t, Course (.start (.bare ⟨"/work"⟩) .default) h [] b ∧ adopted h = [t, s] ∧
      s.view.groupBy ≠ t.view.groupBy ∧ b.preferences = .ofSettings t := by
  let s : Settings := { Settings.default with view := ⟨.rule, .workspace⟩ }
  let t : Settings := { Settings.default with view := ⟨.both, .openFiles⟩, refresh := ⟨20, 10⟩ }
  have hc : Course (.start (.bare ⟨"/work"⟩) .default) ([_, _, _] ++ _ :: [_, _]) [] _ :=
    (((((Course.refl.begin (.updateSettings s) rfl trivial).goOn [] []).begin (.updateSettings t)
      rfl trivial).goOn [] [_]).goOn [] []).goOn [] []
  obtain ⟨-, hturn⟩ := preferences_of_newest_settings hc (by decide) rfl rfl
  exact ⟨_, _, s, t, hc, rfl, by decide, hturn rfl⟩

/-- Two calls with new settings, the first half done while the second takes all of its steps: what
is left is the mode of the first and everything else of the second. -/
theorem preferences_of_two_settings :
    ¬∀ project settings h b, Course (.start project settings) h [] b →
      (∀ m ∈ h, m.changesMode = false) → adopted h ≠ [] →
      ∃ s ∈ adopted h, b.preferences = .ofSettings s := by
  intro hall
  let s : Settings := { Settings.default with view := ⟨.rule, .workspace⟩ }
  let t : Settings := { Settings.default with view := ⟨.both, .openFiles⟩ }
  have hc : Course (.start (.bare ⟨"/work"⟩) .default) [_, _, _, _, _, _] [] _ :=
    (((((Course.refl.begin (.updateSettings s) rfl trivial).begin (.updateSettings t) rfl
      trivial).goOn [_] []).goOn [_] []).goOn [] []).goOn [] []
  obtain ⟨u, hu, hp⟩ := hall _ _ _ _ hc (by decide) (by decide)
  have hmode : GroupMode.rule = u.view.groupBy := congrArg Preferences.mode hp
  have hfilters : Filters.ofSettings t = .ofSettings u := congrArg Preferences.filters hp
  rcases List.mem_cons.1 hu with rfl | hu
  · exact absurd hmode (by decide)
  · rw [List.mem_singleton.1 hu] at hfilters
    exact absurd hfilters (by decide)

end ProblemBoard.Refresh
