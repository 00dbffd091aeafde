import ProblemBoard.Proofs.Refresh.Frame

/-!
# Notices of failures

The user is told of a producer that fails, but only once.  The failures that count are those of
scans whose result is shown; a scan that ran into a pause is dropped with all it found.  A step
tells of the failures it brings whose producers were not told of before, and remembers these
producers.  No other step touches what is remembered, be it a pause, new settings or a scan that
ends in an error.  So a run tells of the first failure of each producer and of no other,
`producers_noticed_once`.

Nothing here depends on which steps are possible on a board, so a `Trace` takes any: also scans
that finish after they were cancelled, and calls that come after the end.
-/

namespace ProblemBoard.Refresh

/-! ## First failures -/

/-- The failures that are told: those of producers that were not told of before. -/
def newFailures (notified : List String) : List Failure → List Failure
  | [] => []
  | e :: es =>
      if notified.contains e.producer then newFailures notified es
      else e :: newFailures (e.producer :: notified) es

section
variable {notified : List String} {es : List Failure}

theorem notices_eq (notified : List String) (es : List Failure) :
    notices notified es = (newFailures notified es).map fun e => .notify e.message := by
  induction es generalizing notified with
  | nil => rfl
  | cons e es ih =>
    unfold notices newFailures
    split
    · exact ih notified
    · rw [List.map_cons, ih]

/-- Failures are told one after another. -/
theorem newFailures_append (notified : List String) (es fs : List Failure) :
    newFailures notified (es ++ fs) =
      newFailures notified es ++ newFailures (noticed notified es) fs := by
  induction es generalizing notified with
  | nil => rfl
  | cons e es ih =>
    rw [List.cons_append, newFailures, newFailures, noticed]
    split
    · exact ih notified
    · rw [List.cons_append, ih]

theorem noticed_append (notified : List String) (es fs : List Failure) :
    noticed notified (es ++ fs) = noticed (noticed notified es) fs := by
  induction es generalizing notified with
  | nil => rfl
  | cons e es ih =>
    rw [List.cons_append, noticed, noticed]
    split
    · exact ih notified
    · exact ih _

theorem newFailures_sublist (notified : List String) (es : List Failure) :
    (newFailures notified es).Sublist es := by
  induction es generalizing notified with
  | nil => exact .slnil
  | cons e es ih =>
    rw [newFailures]
    split
    · exact (ih notified).cons e
    · exact (ih _).cons_cons e

/-- Of the failures of a producer the first one is told, unless the producer was told of before:
later ones find it among those that were told of. -/
theorem filter_newFailures (p : String) (notified : List String) (es : List Failure) :
    (newFailures notified es).filter (·.producer = p) =
      if p ∈ notified then [] else (es.find? (·.producer = p)).toList := by
  induction es generalizing notified with
  | nil => simp [newFailures]
  | cons e es ih =>
    rw [newFailures, List.find?_cons]
    by_cases ht : e.producer ∈ notified
    · rw [if_pos (List.contains_iff_mem.2 ht), ih]
      by_cases hp : e.producer = p
      · rw [if_pos (hp ▸ ht), if_pos (hp ▸ ht)]
      · rw [decide_eq_false hp]
    · rw [if_neg (mt List.contains_iff_mem.1 ht), List.filter_cons, ih]
      by_cases hp : e.producer = p
      · subst hp
        simp [ht]
      · simp [hp, Ne.symm hp]

theorem mem_noticed {p : String} :
    p ∈ noticed notified es ↔ p ∈ notified ∨ ∃ e ∈ es, e.producer = p := by
  induction es generalizing notified with
  | nil => simp [noticed]
  | cons e es ih =>
    rw [noticed]
    simp only [List.mem_cons, exists_eq_or_imp]
    split
    · next ht =>
      have htold : e.producer ∈ notified := List.contains_iff_mem.1 ht
      rw [ih]
      refine ⟨Or.imp_right .inr, ?_⟩
      rintro (hp | rfl | hp)
      · exact .inl hp
      · exact .inl htold
      · exact .inr hp
    · rw [ih, List.mem_cons, eq_comm, or_assoc, or_left_comm]

end

/-! ## Failures that count -/

/-- Whether a scan finished at a moment whose result was dropped: it ran into a pause. -/
def Moment.drops (m : Moment) : Bool :=
  m.finishes && (m.board.machine.discard || m.board.machine.paused)

/-- The failures that came with the result of a scan, if the result was shown. -/
def Moment.failures (m : Moment) : List Failure :=
  match m.step with
  | .scanFinished _ (.ok r) => if m.drops then [] else r.collection.failures
  | _ => []

/-- The failures that came with results that were shown, oldest first. -/
def failures (h : List Moment) : List Failure := h.reverse.flatMap Moment.failures

@[simp] theorem failures_nil : failures [] = [] := rfl

@[simp] theorem failures_cons (m : Moment) (h : List Moment) :
    failures (m :: h) = failures h ++ m.failures := by
  simp [failures]

theorem Moment.failures_of_drops {m : Moment} (h : m.drops = true) : m.failures = [] := by
  unfold Moment.failures
  split
  · exact if_pos h
  · rfl

/-- The text of a notice. -/
def Effect.notice? : Effect → Option String
  | .notify message => some message
  | _ => none

/-! ## Parts of steps -/

section
variable (b : Board)

theorem Board.notified_apply (a : Action) : (b.apply a).notified = b.notified := by
  cases a <;> rfl

theorem Board.notified_transition (f : Machine → Machine × Action) :
    (b.transition f).notified = b.notified :=
  Board.notified_apply _ _

theorem Board.notified_setMode (mode : GroupMode) : (b.setMode mode).notified = b.notified := by
  obtain ⟨_, _, _, he⟩ := b.setMode_frame mode
  rw [he]

theorem Board.notified_navigate (move : Cursor.Move) :
    (b.navigate move).1.notified = b.notified := by
  obtain ⟨_, _, he⟩ := b.navigate_frame move
  rw [he]

theorem Board.notified_publish (r : ScanResult) :
    (b.publish r).notified = noticed b.notified r.collection.failures := by
  unfold Board.publish
  dsimp only
  rw [Board.notifyFailures_eq]
  rfl

/-- Only a result that is shown is kept from being dropped. -/
theorem Moment.drops_scanFinished (id : Nat) (result : Except ScanError ScanResult) :
    Moment.drops ⟨b, .scanFinished id result⟩ = !b.machine.scanFinished.2.publish := by
  rw [Machine.scanFinished_publish, Bool.not_and, Bool.not_not, Bool.not_not]
  rfl

theorem Board.notified_scanFinished (id : Nat) (result : Except ScanError ScanResult) :
    (b.scanFinished id result).notified =
      noticed b.notified (Moment.failures ⟨b, .scanFinished id result⟩) := by
  unfold Board.scanFinished
  dsimp only
  rw [Board.notified_apply]
  cases result with
  | error e => split <;> rfl
  | ok r =>
    rw [Moment.failures, Moment.drops_scanFinished]
    cases b.machine.scanFinished.2.publish with
    | true => exact Board.notified_publish _ r
    | false => rfl

/-! ## Whole steps -/

/-- A step remembers the producers of the failures it brings, and forgets none. -/
theorem Board.notified_after (s : Step) :
    (b.after s).notified = noticed b.notified (Moment.failures ⟨b, s⟩) := by
  cases s with
  | called c =>
    cases c with
    | requestRefresh | requestImmediate | setPaused | togglePause =>
      exact b.notified_transition _
    | setMode mode | regroupThen mode => exact b.notified_setMode mode
    | refreshThen changed =>
      cases changed with
      | true => rfl
      | false => exact b.notified_transition _
    | navigate move => exact b.notified_navigate move
    | isPaused | updateSettings | revalidate | project | shutdown => rfl
  | timerFired g => exact Board.notified_apply _ _
  | scanFinished id result => exact b.notified_scanFinished id result
  | resolutionLanded r project =>
    show (b.resolutionLanded r project).notified = b.notified
    by_cases h : r.revision = b.revision
    · rw [Board.resolutionLanded_of_eq h]
      exact Board.notified_transition _ _
    · rw [Board.resolutionLanded_of_ne h]

theorem Action.notices_effects (a : Action) : a.effects.filterMap Effect.notice? = [] := by
  cases a <;> rfl

theorem Board.notices_news (r : ScanResult) :
    (b.news (.ok r)).filterMap Effect.notice? =
      (newFailures b.notified r.collection.failures).map Failure.message := by
  rw [Board.news, notices_eq, List.filterMap_append, List.filterMap_map]
  exact (List.append_nil _).trans (congrFun List.filterMap_eq_map _)

/-- A step tells of the failures it brings whose producers were not told of before. -/
theorem Moment.notices_pushed (m : Moment) :
    m.pushed.filterMap Effect.notice? =
      (newFailures m.board.notified m.failures).map Failure.message := by
  obtain ⟨b, s⟩ := m
  rw [Moment.pushed_mk, List.filterMap_append, Action.notices_effects, List.append_nil]
  cases s with
  | called c =>
    cases c with
    | setMode mode | regroupThen mode =>
      show (b.rearranged mode).filterMap _ = []
      unfold Board.rearranged
      split <;> rfl
    | navigate move =>
      show ((b.navigate move).2.toList.map Effect.reveal).filterMap _ = []
      cases (b.navigate move).2 <;> rfl
    | _ => rfl
  | timerFired g => rfl
  | scanFinished id result =>
    rw [Board.told]
    cases result with
    | error e => split <;> rfl
    | ok r =>
      rw [Moment.failures, Moment.drops_scanFinished]
      cases b.machine.scanFinished.2.publish with
      | true => exact b.notices_news r
      | false => rfl
  | resolutionLanded r project => rfl

end

/-! ## Traces -/

/-- Any steps one after another, whether possible or not: their moments, newest first, and the
board they lead to. -/
inductive Trace (b₀ : Board) : List Moment → Board → Prop where
  | refl : Trace b₀ [] b₀
  | step {h : List Moment} {b : Board} (s : Step) :
      Trace b₀ h b → Trace b₀ (⟨b, s⟩ :: h) (b.after s)
  /-- Effects are taken off the queue, and a delivery may begin or end. -/
  | deliver {h : List Moment} {b : Board} {rest : List Effect} {flushing : Bool} :
      Trace b₀ h b → rest <:+ b.effects → Trace b₀ h { b with effects := rest, flushing }

/-- What is possible is covered. -/
theorem Run.trace {b₀ b : Board} {h : List Moment} (hr : Run b₀ h b) : Trace b₀ h b := by
  induction hr with
  | refl => exact .refl
  | step s _ _ ih => exact ih.step s
  | deliver _ hs ih => exact ih.deliver hs

section
variable {project : Project} {settings : Settings} {h : List Moment} {b : Board}

theorem Trace.notified (ht : Trace (.start project settings) h b) :
    b.notified = noticed [] (failures h) := by
  induction ht with
  | refl => rfl
  | deliver _ _ ih => exact ih
  | @step h b s _ ih => rw [b.notified_after, ih, failures_cons, noticed_append]

theorem Trace.notices (ht : Trace (.start project settings) h b) :
    (pushed h).filterMap Effect.notice? =
      (newFailures [] (failures h)).map Failure.message := by
  induction ht with
  | refl => rfl
  | deliver _ _ ih => exact ih
  | @step h b s ht ih =>
    rw [pushed_cons, failures_cons, List.filterMap_append, Moment.notices_pushed, ih,
      newFailures_append, List.map_append, ht.notified]

/-- In every run the user is told of the first failure of each producer whose failures came with
results that were shown, in the order in which they came, and of no other failure.  The board
remembers exactly these producers; a scan that is dropped tells of nothing and makes it remember
nothing. -/
theorem producers_noticed_once (ht : Trace (.start project settings) h b) :
    (∃ firsts : List Failure,
        firsts.Sublist (failures h) ∧
          (∀ p, firsts.filter (·.producer = p) =
            ((failures h).find? (·.producer = p)).toList) ∧
          (pushed h).filterMap Effect.notice? = firsts.map Failure.message) ∧
      (∀ p, p ∈ b.notified ↔ ∃ e ∈ failures h, e.producer = p) ∧
      ∀ m ∈ h, m.drops = true →
        m.pushed.filterMap Effect.notice? = [] ∧
          (m.board.after m.step).notified = m.board.notified := by
  refine ⟨⟨newFailures [] (failures h), newFailures_sublist _ _, fun p => ?_, ht.notices⟩,
    fun p => ?_, fun m _ hd => ⟨?_, ?_⟩⟩
  · rw [filter_newFailures, if_neg List.not_mem_nil]
  · rw [ht.notified, mem_noticed]
    simp only [List.not_mem_nil, false_or]
  · rw [m.notices_pushed, Moment.failures_of_drops hd]
    rfl
  · rw [Board.notified_after, Moment.failures_of_drops hd]
    rfl

end

/-- The first scan runs into a pause, and the lint it could not run is not told of.  Lint fails
twice in the second scan and once more in the third one, beside an engine that is missing: the
user is told of the engine and of the first time lint failed in the second scan. -/
theorem producers_noticed_once_again :
    ∃ h b engine lint again later, Trace (.start (.bare ⟨"/work"⟩) .default) h b ∧
      (∃ m ∈ h, m.drops = true ∧ m.pushed.filterMap Effect.notice? = []) ∧
      failures h = [engine, lint, again, later] ∧
      (∃ firsts : List Failure, firsts.Sublist (failures h) ∧
        firsts.filter (·.producer = "tsc") = [engine] ∧
        firsts.filter (·.producer = "lint") = [lint] ∧
        (pushed h).filterMap Effect.notice? = firsts.map Failure.message) ∧
      "lint" ∈ b.notified ∧ "live" ∉ b.notified := by
  let early : Failure := .panicked "lint" "early"
  let engine : Failure := .engineNotFound "tsc" "tsc"
  let lint : Failure := .panicked "lint" "first"
  let again : Failure := .invocationFailed "lint" "again"
  let later : Failure := .panicked "lint" "later"
  let found (failures : List Failure) : ScanResult := ⟨⟨[], [], failures⟩, .empty .file⟩
  have ht₀ : Trace (.start (.bare ⟨"/work"⟩) .default) _ _ :=
    ((Trace.refl.step (.called .requestImmediate)).step (.called (.setPaused true))).step
      (.called (.setPaused false))
  have ht : Trace (.start (.bare ⟨"/work"⟩) .default) _ _ :=
    ((((ht₀.step (.scanFinished 1 (.ok (found [early])))).step (.called .requestImmediate)).step
      (.scanFinished 2 (.ok (found [engine, lint, again])))).step
        (.called .requestImmediate)).step (.scanFinished 3 (.ok (found [later])))
  obtain ⟨⟨firsts, hsub, hfirst, hnotices⟩, hnotified, hdrops⟩ := producers_noticed_once ht
  have hscan : ∀ m₁ m₂ m₃ m₄ (m : Moment) h, m ∈ m₁ :: m₂ :: m₃ :: m₄ :: m :: h :=
    fun _ _ _ _ _ _ => .tail _ (.tail _ (.tail _ (.tail _ (.head _))))
  refine ⟨_, _, engine, lint, again, later, ht,
    ⟨_, hscan _ _ _ _ _ _, rfl, (hdrops _ (hscan _ _ _ _ _ _) rfl).1⟩, rfl,
    ⟨firsts, hsub, hfirst "tsc", hfirst "lint", hnotices⟩,
    (hnotified "lint").2 ⟨lint, .tail _ (.head _), rfl⟩, ?_⟩
  have hother : ∀ e ∈ [engine, lint, again, later], e.producer ≠ "live" := by
    simp [engine, lint, again, later, Failure.producer]
  intro hlive
  obtain ⟨e, he, hp⟩ := (hnotified "live").1 hlive
  exact hother e he hp

end ProblemBoard.Refresh
