import ProblemBoard.Proofs.Refresh.Frame

/-!
# Delivery of effects

Any number of callers take steps of the board, and each then sees to the effects: it looks
whether someone is delivering, and if not it takes the queue batch by batch and tells the host of
one effect after another until the queue is empty.  Only the steps of the board, the first look
and the taking of a batch exclude each other; in between anyone may do anything.  That covers a
host that asks something of the board while it is told of an effect: it is one more caller, and
nothing said here depends on the other one waiting for it.

`Traffic` lists what can happen.  `delivery_orderly` says that effects are told exactly once and
in the order in which they were queued, by one caller at a time, and that they are left in the
queue only to someone who delivers or is about to look.
-/

namespace ProblemBoard.Refresh

/-! ## Callers -/

/-- Where a caller stands behind its step of the board. -/
inductive Caller where
  /-- It has queued some effects and has not looked yet. -/
  | arrived (queued : List Effect)
  /-- It delivers.  These effects of its batch are left. -/
  | delivering (batch : List Effect)
  /-- It waits for the host, which it told of an effect.  These effects of its batch are left. -/
  | telling (batch : List Effect)

/-- The effects a caller has taken off the queue and not told of. -/
def Caller.batch : Caller → List Effect
  | .arrived _ => []
  | .delivering batch => batch
  | .telling batch => batch

/-- Whether a caller has taken over the delivery. -/
def Caller.isDelivering : Caller → Bool
  | .arrived _ => false
  | .delivering _ => true
  | .telling _ => true

/-- Whether who takes a step sees to the effects behind it. -/
def Board.flushes (b : Board) : Step → Bool
  | .called .requestRefresh => true
  | .called .requestImmediate => true
  | .called (.setPaused _) => true
  | .called .togglePause => true
  | .called (.setMode mode) => mode ≠ b.mode
  | .called (.regroupThen mode _) => mode ≠ b.mode
  | .called (.refreshThen changed) => !changed
  | .called (.navigate move) => (b.navigate move).2.isSome
  | .called _ => false
  | .timerFired _ => true
  | .scanFinished _ _ => true
  | .resolutionLanded r _ => r.revision = b.revision

/-- Who joins the callers with a step. -/
def Moment.joining (m : Moment) : List Caller :=
  if m.board.flushes m.step then [.arrived m.pushed] else []

/-- What a caller becomes that looked: it takes over, or it leaves its effects to someone else. -/
def Caller.afterLook (takesOver : Bool) : List Caller := if takesOver then [.delivering []] else []

/-- What a caller becomes that took a batch: it is done when there was nothing to take. -/
def Caller.afterTake : List Effect → List Caller
  | [] => []
  | e :: es => [.delivering (e :: es)]

/-- What can happen on a board with its callers: the moments so far, newest first, the board, the
callers under way and the effects the host was told of, oldest first. -/
inductive Traffic (b₀ : Board) : List Moment → Board → List Caller → List Effect → Prop where
  | refl : Traffic b₀ [] b₀ [] []
  | step {h : List Moment} {b : Board} {cs : List Caller} {told : List Effect} (s : Step) :
      Traffic b₀ h b cs told →
      Traffic b₀ (⟨b, s⟩ :: h) (b.after s) (cs ++ Moment.joining ⟨b, s⟩) told
  | look {h : List Moment} {b : Board} {before after : List Caller} {told queued : List Effect} :
      Traffic b₀ h b (before ++ .arrived queued :: after) told →
      Traffic b₀ h b.beginDelivery.1
        (before ++ Caller.afterLook b.beginDelivery.2 ++ after) told
  | take {h : List Moment} {b : Board} {before after : List Caller} {told : List Effect} :
      Traffic b₀ h b (before ++ .delivering [] :: after) told →
      Traffic b₀ h b.takeBatch.1 (before ++ Caller.afterTake b.takeBatch.2 ++ after) told
  | tell {h : List Moment} {b : Board} {before after : List Caller} {told : List Effect}
      {e : Effect} {rest : List Effect} :
      Traffic b₀ h b (before ++ .delivering (e :: rest) :: after) told →
      Traffic b₀ h b (before ++ .telling rest :: after) (told ++ [e])
  /-- The host returns. -/
  | goOn {h : List Moment} {b : Board} {before after : List Caller} {told rest : List Effect} :
      Traffic b₀ h b (before ++ .telling rest :: after) told →
      Traffic b₀ h b (before ++ .delivering rest :: after) told

/-! ## Steps of the board -/

@[simp] theorem Board.flushing_apply (b : Board) (a : Action) :
    (b.apply a).flushing = b.flushing := by
  cases a <;> rfl

@[simp] theorem Board.flushing_transition (b : Board) (f : Machine → Machine × Action) :
    (b.transition f).flushing = b.flushing :=
  Board.flushing_apply _ _

theorem Board.flushing_setMode (b : Board) (mode : GroupMode) :
    (b.setMode mode).flushing = b.flushing := by
  obtain ⟨_, _, _, he⟩ := b.setMode_frame mode
  rw [he]

/-- No step of the board begins or ends a delivery. -/
theorem Board.flushing_after (b : Board) (s : Step) : (b.after s).flushing = b.flushing := by
  cases s with
  | called c =>
    cases c with
    | requestRefresh | requestImmediate | setPaused | togglePause =>
      exact b.flushing_transition _
    | setMode mode | regroupThen mode => exact b.flushing_setMode mode
    | refreshThen changed =>
      cases changed with
      | true => rfl
      | false => exact b.flushing_transition _
    | navigate move =>
      show (b.navigate move).1.flushing = _
      obtain ⟨_, _, he⟩ := b.navigate_frame move
      rw [he]
    | isPaused | updateSettings | revalidate | project | shutdown => rfl
  | timerFired g => exact Board.flushing_apply _ _
  | scanFinished id result =>
    show (b.scanFinished id result).flushing = _
    obtain ⟨_, _, _, _, _, _, _, he⟩ := b.scanFinished_frame id result
    rw [he, Board.flushing_apply]
  | resolutionLanded r project =>
    show (b.resolutionLanded r project).flushing = _
    by_cases h : r.revision = b.revision
    · rw [Board.resolutionLanded_of_eq h]
      exact Board.flushing_transition _ _
    · rw [Board.resolutionLanded_of_ne h]

/-- Who does not see to the effects has queued none. -/
theorem Board.pushed_of_not_flushes {b : Board} {s : Step} (h : b.flushes s = false) :
    Moment.pushed ⟨b, s⟩ = [] := by
  rw [Moment.pushed_mk]
  cases s with
  | called c =>
    cases c with
    | requestRefresh | requestImmediate | setPaused | togglePause => cases h
    | setMode mode | regroupThen mode =>
      have hm : mode = b.mode := by simpa [Board.flushes] using h
      have hr : b.rearranged mode = [] := if_pos (.inl hm)
      show b.rearranged mode ++ [] = []
      rw [hr, List.append_nil]
    | refreshThen changed =>
      cases changed with
      | true => rfl
      | false => cases h
    | navigate move =>
      have hn : (b.navigate move).2 = none := by simpa [Board.flushes] using h
      show (b.navigate move).2.toList.map Effect.reveal ++ [] = []
      rw [hn]
      rfl
    | isPaused | updateSettings | revalidate | project | shutdown => rfl
  | timerFired g => cases h
  | scanFinished id result => cases h
  | resolutionLanded r project =>
    have hr : r.revision ≠ b.revision := by simpa [Board.flushes] using h
    rw [Board.action, b.response_of_silent (Board.signal_landed_of_ne hr project)]
    rfl

theorem Board.effects_pushed (b : Board) (s : Step) :
    (b.after s).effects = b.effects ++ Moment.pushed ⟨b, s⟩ := by
  rw [Moment.pushed_mk, b.effects_after]

/-! ## Order of deliveries -/

/-- The delivery of effects is in order. -/
structure Orderly (h : List Moment) (b : Board) (cs : List Caller) (told : List Effect) :
    Prop where
  /-- What was told, what was taken and what waits are all effects in their order. -/
  complete : told ++ cs.flatMap Caller.batch ++ b.effects = pushed h
  /-- One caller delivers when the board says so, and otherwise none. -/
  single : cs.countP Caller.isDelivering = if b.flushing then 1 else 0
  /-- Effects that wait while nobody delivers have someone who queued some and will look. -/
  attended : b.flushing = false → b.effects ≠ [] → ∃ es, es ≠ [] ∧ Caller.arrived es ∈ cs

theorem Caller.flatMap_batch_of_none {cs : List Caller} (h : cs.countP isDelivering = 0) :
    cs.flatMap batch = [] := by
  rw [List.flatMap_eq_nil_iff]
  intro c hc
  have hd := List.countP_eq_zero.1 h c hc
  cases c with
  | arrived => rfl
  | delivering => exact absurd rfl hd
  | telling => exact absurd rfl hd

section
variable {h : List Moment} {b : Board} {before after : List Caller} {c : Caller}
variable {told : List Effect}

/-- Who delivers is the only one who does. -/
theorem Orderly.alone (ho : Orderly h b (before ++ c :: after) told) (hc : c.isDelivering = true) :
    b.flushing = true ∧ before.countP Caller.isDelivering = 0 ∧
      after.countP Caller.isDelivering = 0 := by
  have hs := ho.single
  rw [List.countP_append, List.countP_cons, if_pos hc] at hs
  cases hf : b.flushing with
  | true =>
    rw [hf, if_pos rfl] at hs
    exact ⟨rfl, by omega, by omega⟩
  | false =>
    rw [hf] at hs
    simp at hs

/-- The effects that are taken are those of the one who delivers. -/
theorem Orderly.batch_of_alone (ho : Orderly h b (before ++ c :: after) told)
    (hc : c.isDelivering = true) : told ++ c.batch ++ b.effects = pushed h := by
  obtain ⟨-, hb, ha⟩ := ho.alone hc
  have hcomplete := ho.complete
  rw [List.flatMap_append, List.flatMap_cons, Caller.flatMap_batch_of_none hb,
    Caller.flatMap_batch_of_none ha, List.append_nil, List.nil_append] at hcomplete
  exact hcomplete

/-- The one who delivers goes on with another batch. -/
theorem Orderly.replace {b' : Board} {c' : Caller} {told' : List Effect}
    (ho : Orderly h b (before ++ c :: after) told) (hc : c.isDelivering = true)
    (hc' : c'.isDelivering = true) (hf : b'.flushing = true)
    (heq : told' ++ c'.batch ++ b'.effects = pushed h) :
    Orderly h b' (before ++ c' :: after) told' := by
  obtain ⟨-, hb, ha⟩ := ho.alone hc
  refine ⟨?_, ?_, ?_⟩
  · rw [List.flatMap_append, List.flatMap_cons, Caller.flatMap_batch_of_none hb,
      Caller.flatMap_batch_of_none ha, List.append_nil, List.nil_append]
    exact heq
  · rw [List.countP_append, List.countP_cons, hb, ha, if_pos hc', hf, if_pos rfl]
  · intro hn
    rw [hf] at hn
    cases hn

theorem Orderly.step {cs : List Caller} (ho : Orderly h b cs told) (s : Step) :
    Orderly (⟨b, s⟩ :: h) (b.after s) (cs ++ Moment.joining ⟨b, s⟩) told := by
  have hbatch : (Moment.joining ⟨b, s⟩).flatMap Caller.batch = [] := by
    unfold Moment.joining
    split <;> rfl
  have hcount : (Moment.joining ⟨b, s⟩).countP Caller.isDelivering = 0 := by
    unfold Moment.joining
    split <;> rfl
  refine ⟨?_, ?_, ?_⟩
  · rw [pushed_cons, ← ho.complete, List.flatMap_append, hbatch, List.append_nil,
      b.effects_pushed, List.append_assoc]
    simp only [List.append_assoc]
  · rw [List.countP_append, hcount, Nat.add_zero, b.flushing_after]
    exact ho.single
  · intro hf hne
    rw [b.flushing_after] at hf
    rw [b.effects_pushed] at hne
    by_cases hp : Moment.pushed ⟨b, s⟩ = []
    · rw [hp, List.append_nil] at hne
      obtain ⟨es, hes, hmem⟩ := ho.attended hf hne
      exact ⟨es, hes, List.mem_append_left _ hmem⟩
    · have hflush : b.flushes s = true := by
        rw [← Bool.not_eq_false]
        intro hn
        exact hp (Board.pushed_of_not_flushes hn)
      have hjoin : Moment.joining ⟨b, s⟩ = [.arrived (Moment.pushed ⟨b, s⟩)] := if_pos hflush
      exact ⟨_, hp, List.mem_append_right _ (by simp [hjoin])⟩

theorem Orderly.look {queued : List Effect}
    (ho : Orderly h b (before ++ .arrived queued :: after) told) :
    Orderly h b.beginDelivery.1 (before ++ Caller.afterLook b.beginDelivery.2 ++ after) told := by
  obtain ⟨hc, hs, -⟩ := ho
  have hcomplete : ∀ cs : List Caller, cs.flatMap Caller.batch = [] →
      told ++ (before ++ cs ++ after).flatMap Caller.batch ++ b.effects = pushed h := by
    intro cs hcs
    rw [List.flatMap_append, List.flatMap_append, hcs, List.append_nil, ← hc,
      List.flatMap_append, List.flatMap_cons]
    rfl
  rw [List.countP_append, List.countP_cons_of_neg (by simp [Caller.isDelivering])] at hs
  unfold Board.beginDelivery
  cases hf : b.flushing with
  | true =>
    rw [hf, if_pos rfl] at hs
    refine ⟨hcomplete _ rfl, ?_, ?_⟩
    · show (before ++ [] ++ after).countP Caller.isDelivering = if b.flushing then 1 else 0
      rw [List.append_nil, List.countP_append, hf, if_pos rfl, hs]
    · intro hn
      exact absurd (hf.symm.trans hn) (by decide)
  | false =>
    rw [hf] at hs
    refine ⟨hcomplete _ rfl, ?_, ?_⟩
    · show (before ++ [Caller.delivering []] ++ after).countP Caller.isDelivering = 1
      rw [List.append_assoc, List.countP_append, List.singleton_append,
        List.countP_cons_of_pos rfl]
      simp only [Bool.false_eq_true, if_false] at hs
      omega
    · intro hn
      cases hn

theorem Orderly.take (ho : Orderly h b (before ++ .delivering [] :: after) told) :
    Orderly h b.takeBatch.1 (before ++ Caller.afterTake b.takeBatch.2 ++ after) told := by
  have heq := ho.batch_of_alone rfl
  by_cases hn : b.effects = []
  · obtain ⟨-, hb, ha⟩ := ho.alone rfl
    rw [Board.takeBatch_of_nil hn]
    refine ⟨?_, ?_, ?_⟩
    · simpa [Caller.afterTake, Caller.flatMap_batch_of_none hb, Caller.flatMap_batch_of_none ha,
        Caller.batch] using heq
    · simp [Caller.afterTake, hb, ha, List.countP_append]
    · intro _ hne
      exact absurd hn hne
  · rw [Board.takeBatch_of_ne_nil hn]
    obtain ⟨e, es, he⟩ := List.exists_cons_of_ne_nil hn
    have htake : Caller.afterTake b.effects = [.delivering b.effects] := by rw [he]; rfl
    rw [htake, List.append_assoc]
    refine ho.replace rfl rfl (ho.alone rfl).1 ?_
    simpa [Caller.batch] using heq

theorem Orderly.tell {e : Effect} {rest : List Effect}
    (ho : Orderly h b (before ++ .delivering (e :: rest) :: after) told) :
    Orderly h b (before ++ .telling rest :: after) (told ++ [e]) := by
  refine ho.replace rfl rfl (ho.alone rfl).1 ?_
  have heq := ho.batch_of_alone rfl
  simpa [Caller.batch] using heq

theorem Orderly.goOn {rest : List Effect}
    (ho : Orderly h b (before ++ .telling rest :: after) told) :
    Orderly h b (before ++ .delivering rest :: after) told :=
  ho.replace rfl rfl (ho.alone rfl).1 (ho.batch_of_alone rfl)

end

/-! ## Traffic -/

section
variable {project : Project} {settings : Settings} {h : List Moment} {b : Board}
variable {cs : List Caller} {told : List Effect}

theorem Traffic.orderly (ht : Traffic (.start project settings) h b cs told) :
    Orderly h b cs told := by
  induction ht with
  | refl => exact ⟨rfl, rfl, fun _ hne => absurd rfl hne⟩
  | step s _ ih => exact ih.step s
  | look _ ih => exact ih.look
  | take _ ih => exact ih.take
  | tell _ ih => exact ih.tell
  | goOn _ ih => exact ih.goOn

/-- Whatever callers do, and in whatever order: the effects the host was told of, then those left
of the batch of the one who delivers, then those that wait are all effects that were queued, in
their order; at most one caller delivers; and when effects wait while nobody delivers, some caller
has queued effects and has not looked yet.  So when no caller is under way the host was told of
everything. -/
theorem delivery_orderly (ht : Traffic (.start project settings) h b cs told) :
    told ++ cs.flatMap Caller.batch ++ b.effects = pushed h ∧
      cs.countP Caller.isDelivering = (if b.flushing then 1 else 0) ∧
      (∀ before c after, cs = before ++ c :: after → c.isDelivering = true →
        told ++ c.batch ++ b.effects = pushed h) ∧
      (b.flushing = false → b.effects ≠ [] → ∃ es, es ≠ [] ∧ Caller.arrived es ∈ cs) ∧
      (cs = [] → told = pushed h) := by
  have ho := ht.orderly
  refine ⟨ho.complete, ho.single, ?_, ho.attended, ?_⟩
  · rintro before c after rfl hc
    exact ho.batch_of_alone hc
  · rintro rfl
    have hf : b.flushing = false := by
      have hs := ho.single
      cases hf : b.flushing with
      | false => rfl
      | true => simp [hf] at hs
    have hn : b.effects = [] := by
      apply Decidable.byContradiction
      intro hne
      obtain ⟨es, -, hmem⟩ := ho.attended hf hne
      cases hmem
    have hcomplete := ho.complete
    rw [hn] at hcomplete
    simpa using hcomplete

end

/-- While the host is told of the first scan it asks for a pause.  That caller finds someone
delivering and leaves its effects to it, and the host is told of them behind the first one. -/
theorem delivery_orderly_reentrant :
    ∃ h b cs told, Traffic (.start (.bare ⟨"/work"⟩) .default) h b cs told ∧ h.length = 2 ∧
      told = [.badge .scanning, .badge .clear] ∧ cs = [.telling [.dataChanged]] ∧
      told ++ [.dataChanged] ++ b.effects = pushed h ∧ cs.countP Caller.isDelivering = 1 := by
  have h₁ : Traffic (.start (.bare ⟨"/work"⟩) .default) _ _ ([] ++ .arrived _ :: []) [] :=
    Traffic.refl.step (.called .requestImmediate)
  have h₂ : Traffic (.start (.bare ⟨"/work"⟩) .default) _ _ ([] ++ .delivering [] :: []) [] :=
    h₁.look
  have h₃ : Traffic (.start (.bare ⟨"/work"⟩) .default) _ _ ([] ++ .delivering (_ :: _) :: []) [] :=
    h₂.take
  have h₄ : Traffic (.start (.bare ⟨"/work"⟩) .default) _ _ ([.telling []] ++ .arrived _ :: []) _ :=
    h₃.tell.step (.called (.setPaused true))
  have h₅ : Traffic (.start (.bare ⟨"/work"⟩) .default) _ _ ([] ++ .telling [] :: []) _ := h₄.look
  have h₆ : Traffic (.start (.bare ⟨"/work"⟩) .default) _ _ ([] ++ .delivering (_ :: _) :: []) _ :=
    (h₅.goOn).take
  have ht := h₆.tell
  obtain ⟨-, hone, hbatch, -, -⟩ := delivery_orderly ht
  exact ⟨_, _, _, _, ht, rfl, rfl, rfl, hbatch [] _ [] rfl rfl, hone⟩

end ProblemBoard.Refresh
