import ProblemBoard.Proofs.Refresh.Agreement
import ProblemBoard.Proofs.Refresh.Calls
import ProblemBoard.Proofs.Refresh.Newest

/-!
# Changes are applied

New filters and a new project count from the next scan on.  A change is *applied* when the
newest scan goes by it.  Until then a scan is owed, or there is something under way that will
ask for one: a resolution that still counts, or what is left of a call with new settings.  So
when a board comes to rest, what it shows is what a scan found that went by what the board
holds now.
-/

namespace ProblemBoard.Refresh

/-- Whether a resolution is under way that still counts. -/
def Basis.Resolving (c : Basis) : Prop := ∃ r ∈ c.resolutions, r.revision = c.revision

/-- Whether a step is a resolution coming back that still counts. -/
def Board.lands (b : Board) : Step → Bool
  | .resolutionLanded r _ => r.revision = b.revision
  | _ => false

/-- How a board stands to its newest scan. -/
inductive Applied (s : Scan) (b : Board) : Prop where
  /-- The scan goes by what the board holds. -/
  | fits : s.filters = b.filters → s.project = b.project → Applied s b
  | owed : Owed b.machine.control → Applied s b
  | resolving : b.basis.Resolving → Applied s b

theorem Applied.deliver {s : Scan} {b : Board} (h : Applied s b) (rest : List Effect)
    (flushing : Bool) : Applied s { b with effects := rest, flushing } := by
  cases h with
  | fits hf hproject => exact .fits hf hproject
  | owed ho => exact .owed ho
  | resolving hr => exact .resolving hr

/-! ## What a step changes that scans go by -/

theorem Board.resolving_revalidate (b : Board) : b.revalidate.basis.Resolving :=
  ⟨_, List.mem_append_right _ (.head _), rfl⟩

/-- Only new settings bring other filters. -/
theorem Board.filters_after {b : Board} {st : Step} (hu : ∀ s, st ≠ .called (.updateSettings s)) :
    (b.after st).filters = b.filters := by
  have h : (b.after st).filters = (b.basisAfter st).filters :=
    congrArg Basis.filters (b.basis_after st)
  rw [h]
  cases st with
  | called c =>
    cases c with
    | updateSettings s => exact absurd rfl (hu s)
    | refreshThen changed => cases changed <;> rfl
    | _ => rfl
  | _ => rfl

/-- A resolution that counts is under way until it comes back. -/
theorem Board.resolving_after {b : Board} {st : Step} (hr : b.basis.Resolving)
    (hl : b.lands st = false) : (b.after st).basis.Resolving := by
  rw [b.basis_after]
  cases st with
  | called c =>
    cases c with
    | revalidate => exact b.resolving_revalidate
    | refreshThen changed =>
      cases changed with
      | true => exact b.resolving_revalidate
      | false => exact hr
    | _ => exact hr
  | resolutionLanded r project =>
    obtain ⟨q, hq, hrev⟩ := hr
    refine ⟨q, List.mem_filter.2 ⟨hq, ?_⟩, hrev⟩
    rw [bne_iff_ne]
    intro heq
    exact of_decide_eq_false hl (heq.symm.trans hrev)
  | timerFired | scanFinished => exact hr

theorem Board.project_after_of_not_lands {b : Board} {st : Step} (hl : b.lands st = false) :
    (b.after st).project = b.project := by
  rw [b.project_after]
  cases st with
  | resolutionLanded r project => exact if_neg (of_decide_eq_false hl)
  | _ => rfl

/-! ## Steps keep what is applied -/

/-- A resolution that counts makes the machine owe a scan when it comes back. -/
theorem owed_after_of_lands {b : Board} {st : Step} (ha : b.Admits st) (hl : b.lands st = true)
    (hp : b.machine.paused = false) (hc : Moment.closes ⟨b, st⟩ = false) :
    Owed (b.after st).machine.control := by
  refine owed_after_of_opens ha ?_ hc
  cases st with
  | resolutionLanded r project =>
    have hx := Board.signal_landed_of_eq (of_decide_eq_true hl) project
    simp [Moment.opens, hx, Signal.opens, hp]
  | called | timerFired | scanFinished => cases hl

theorem Applied.after {s : Scan} {b : Board} {st : Step} (h : Applied s b)
    (hw : Coherent b.work) (ha : b.Admits st) (hp : b.machine.paused = false)
    (hc : Moment.closes ⟨b, st⟩ = false) (hu : ∀ t, st ≠ .called (.updateSettings t)) :
    Applied s (b.after st) := by
  cases hl : b.lands st with
  | true => exact .owed (owed_after_of_lands ha hl hp hc)
  | false =>
    cases h with
    | fits hf hproject =>
      exact .fits (hf.trans (Board.filters_after hu).symm)
        (hproject.trans (Board.project_after_of_not_lands hl).symm)
    | owed ho => exact .owed (owed_after_of_owed hw ha ho hc)
    | resolving hr => exact .resolving (Board.resolving_after hr hl)

/-- New settings tell the machine nothing yet, so no scan starts with them. -/
theorem Board.ne_updateSettings_of_startScan {b : Board} {st : Step}
    (hact : b.action st = .startScan) : ∀ s, st ≠ .called (.updateSettings s) := by
  rintro s rfl
  cases hact

/-- A scan that starts goes by what the board holds. -/
theorem Applied.of_startScan {b : Board} {st : Step} (hact : b.action st = .startScan) :
    Applied { b.nextScan with project := b.projectAfter st } (b.after st) :=
  .fits (Board.filters_after (Board.ne_updateSettings_of_startScan hact)).symm
    (b.project_after st).symm

/-- Outside of a pause a request that waits for quiet leaves a scan owed. -/
theorem Turn.owed_of_refresh {m m' : Machine} {a : Action} (h : Turn m .refresh m' a)
    (hp : m'.paused = false) : Owed m'.control := by
  cases h with
  | mutedRefresh hm => exact absurd (hm.symm.trans hp) (by decide)
  | queueRefresh hm hs => exact ⟨hm, .inr ⟨hs, rfl⟩⟩
  | arm hm => exact ⟨hm, .inl rfl⟩

/-- The last step of new settings leaves a resolution under way that counts, or a scan owed. -/
theorem Applied.of_refreshThen {s : Scan} {b : Board} {changed : Bool}
    (hp : (b.after (.called (.refreshThen changed))).machine.paused = false) :
    Applied s (b.after (.called (.refreshThen changed))) := by
  cases changed with
  | true => exact .resolving b.resolving_revalidate
  | false =>
    have ha : b.Admits (.called (.refreshThen false)) := trivial
    rw [b.paused_after ha] at hp
    apply Applied.owed
    rw [b.control_after ha]
    exact (b.turn rfl).owed_of_refresh hp

/-! ## Courses -/

section
variable {project : Project} {settings : Settings} {h : List Moment} {cs : List Call} {b : Board}

/-- A step other than new settings keeps what is applied.  What was not heard during a pause is made
up for by its end. -/
theorem Run.applied_after {s : Scan} {st : Step} {halfDone : Prop}
    (hr : Run (.start project settings) h b) (ha : b.Admits st)
    (hu : ∀ t, st ≠ .called (.updateSettings t)) (hs : newestScan (⟨b, st⟩ :: h) = some s)
    (hp : (b.after st).machine.paused = false)
    (ih : newestScan h = some s → b.machine.paused = false → Applied s b ∨ halfDone) :
    Applied s (b.after st) ∨ halfDone := by
  have hm := hr.scan?_mk ha
  by_cases hact : b.action st = .startScan
  · rw [if_pos hact] at hm
    obtain rfl := Option.some.inj ((newestScan_of_some hm).symm.trans hs)
    exact .inl (.of_startScan hact)
  · rw [if_neg hact] at hm
    cases hpb : b.machine.paused with
    | true =>
      exact .inl (.owed (Board.owed_of_resumed ha hpb hp hact))
    | false =>
      have hc := (Moment.closes_mk b st).2 ⟨hact, Board.not_paused_of_after ha hp⟩
      have h := ih ((newestScan_of_none hm).symm.trans hs) hpb
      exact h.imp_left fun h => h.after hr.coherent ha hpb hc hu

/-- Outside of a pause the newest scan goes by what the board holds, or a scan is owed, or
something is under way that will ask for one: only new settings ever are, and their last step asks
for a scan. -/
theorem Course.applied {s : Scan} (hc : Course (.start project settings) h cs b)
    (hs : newestScan h = some s) (hp : b.machine.paused = false) : Applied s b ∨ cs ≠ [] := by
  induction hc with
  | refl => cases hs
  | deliver _ _ ih => exact (ih hs hp).imp_left fun h => h.deliver _ _
  | other st hc ha hn ih =>
    refine hc.run.applied_after ha ?_ hs hp ih
    rintro t rfl
    cases hn
  | @begin _ cs b c hc _ ha ih =>
    by_cases hu : ∃ t, c = .updateSettings t
    · obtain ⟨t, rfl⟩ := hu
      exact .inr (List.append_ne_nil_of_right_ne_nil _ nofun)
    · have hu : ∀ t, Step.called c ≠ .called (.updateSettings t) := by
        rintro t heq
        exact hu ⟨t, Step.called.inj heq⟩
      exact (hc.run.applied_after ha hu hs hp ih).imp_right fun h =>
        List.append_ne_nil_of_left_ne_nil h _
  | @goOn _ b c cs ds hc _ =>
    have hw := hc.not_isWhole c (List.mem_append_right _ (.head _))
    cases c with
    | regroupThen mode changed =>
      right
      rw [List.append_assoc]
      exact List.append_ne_nil_of_right_ne_nil _ nofun
    | refreshThen changed => exact .inl (.of_refreshThen hp)
    | _ => cases hw

/-- In every course, outside of a pause, with no new settings half taken over and no resolution
under way that counts: if the filters or the project are others than those of the newest scan,
the machine waits for a scan, or a scan runs and one more is remembered.  And if the machine
does nothing, they are those of the newest scan, and what is shown is the result of that scan,
arranged in the mode that holds now. -/
theorem no_change_unapplied (hc : Course (.start project settings) h [] b)
    (hstarted : 0 < b.scansStarted) (hp : b.machine.paused = false)
    (hres : ∀ r ∈ b.resolutions, r.revision ≠ b.revision) :
    ∃ s, newestScan h = some s ∧
      (s.filters ≠ b.filters ∨ s.project ≠ b.project →
        b.machine.phase = .debouncing ∨ b.machine.phase = .scanning ∧ b.machine.pending = true) ∧
      (b.machine.phase = .idle →
        s.filters = b.filters ∧ s.project = b.project ∧
          b.view = .arrange b.problems b.mode b.project.root ∧
          ∃ m ∈ h, s ∈ m.board.scans ∧ ∃ result, m.step = .scanFinished s.id result ∧
            (∀ r, result = .ok r → ∃ c, r = s.result c) ∧ b.contents = .ofResult result) := by
  have hr := hc.run
  obtain ⟨s, hs⟩ := hr.exists_newestScan hstarted
  have happlied : Owed b.machine.control ∨ s.filters = b.filters ∧ s.project = b.project := by
    rcases hc.applied hs hp with happlied | hn
    · cases happlied with
      | fits hf hproject => exact .inr ⟨hf, hproject⟩
      | owed ho => exact .inl ho
      | resolving hq =>
        obtain ⟨r, hr, hrev⟩ := hq
        exact absurd hrev (hres r hr)
    · exact absurd rfl hn
  refine ⟨s, hs, ?_, ?_⟩
  · intro hchange
    rcases happlied with ho | ⟨hf, hproject⟩
    · exact ho.2
    · exact absurd hchange (not_or.2 ⟨not_not_intro hf, not_not_intro hproject⟩)
  · intro hi
    have hno : ¬Owed b.machine.control := by
      rintro ⟨-, hd | ⟨hs, -⟩⟩
      · exact absurd (hi.symm.trans hd) (by decide)
      · exact absurd (hi.symm.trans hs) (by decide)
    obtain ⟨hf, hproject⟩ := happlied.resolve_left hno
    refine ⟨hf, hproject, hr.agrees.view, ?_⟩
    rcases (hr.owed_or_running_or_shown hs hp).resolve_left hno with hrun | hshown
    · have hphase := (hr.coherent.scans_of_mem hrun).1
      exact absurd (hi.symm.trans hphase) (by decide)
    · exact hshown

end

/-- Settings that hide warnings are taken over while the first scan runs: the scan goes by other
filters, so one more is remembered.  When that one has run and the board is at rest, what is
shown is what the second scan found, arranged as the new settings ask for. -/
theorem no_change_unapplied_follow_up :
    ∃ h b h' b' t p, Course (.start (.bare ⟨"/work"⟩) .default) h [] b ∧
      (∃ s, newestScan h = some s ∧ s.filters ≠ b.filters) ∧
      (b.machine.phase = .debouncing ∨ b.machine.phase = .scanning ∧ b.machine.pending = true) ∧
      Course (.start (.bare ⟨"/work"⟩) .default) (h' ++ h) [] b' ∧
      b'.machine.phase = .idle ∧ b'.filters = .ofSettings t ∧
      b'.view = .arrange [p] .rule ⟨"/work"⟩ ∧
      ∃ s, newestScan (h' ++ h) = some s ∧ s.id = 2 ∧ s.filters = b'.filters ∧
        ∃ m ∈ h' ++ h, ∃ result, m.step = .scanFinished 2 result := by
  let t : Settings :=
    ⟨{ FilterSettings.default with showWarnings := false }, .default, ⟨.rule, .workspace⟩, .default⟩
  let p : Problem := ⟨⟨"/work/a.ts"⟩, .point ⟨0, 0⟩, .error, "missing name", "tsc", some "2304"⟩
  let s : Scan := ⟨2, .bare ⟨"/work"⟩, .ofSettings t, .rule⟩
  let empty : View := .arrange [] .rule ⟨"/work"⟩
  let b : Board :=
    { Board.start (.bare ⟨"/work"⟩) .default with
      machine := ⟨.scanning, false, true, false, 1, .default, .reset empty.flat.length⟩
      filters := .ofSettings t
      mode := .rule
      view := empty
      scans := [⟨1, .bare ⟨"/work"⟩, .ofSettings .default, .file⟩]
      scansStarted := 1
      effects := [.badge .scanning, .dataChanged] }
  have hc : Course (.start (.bare ⟨"/work"⟩) .default) [_, _, _, _] [] b :=
    (((Course.refl.begin .requestImmediate rfl trivial).begin (.updateSettings t) rfl
      trivial).goOn [] []).goOn [] []
  have hc' : Course (.start (.bare ⟨"/work"⟩) .default) ([_, _, _] ++ [_, _, _, _]) [] _ :=
    ((hc.other (.scanFinished 1 (.error (.failedUnexpectedly "stopped")))
      ⟨_, .head _, rfl, nofun⟩ rfl).other (.timerFired 2) trivial rfl).other
      (.scanFinished 2 (.ok (s.result ⟨[p], [], []⟩)))
      ⟨s, .head _, rfl, fun _ hok => ⟨_, (Except.ok.inj hok).symm⟩⟩ rfl
  obtain ⟨s₁, hs₁, hchange, -⟩ := no_change_unapplied hc (by decide) rfl nofun
  obtain ⟨s₂, hs₂, -, hrest⟩ := no_change_unapplied hc' (by decide) rfl nofun
  obtain rfl : s = s₂ := Option.some.inj hs₂
  obtain ⟨hf, -, hv, m, hm, -, result, hstep, -⟩ := hrest rfl
  have hne : s₁.filters ≠ b.filters := by
    obtain rfl := Option.some.inj hs₁
    decide
  exact ⟨_, _, _, _, t, p, hc, ⟨_, hs₁, hne⟩, hchange (.inl hne), hc', rfl, rfl, hv,
    s, hs₂, rfl, hf, m, hm, result, hstep⟩

end ProblemBoard.Refresh
