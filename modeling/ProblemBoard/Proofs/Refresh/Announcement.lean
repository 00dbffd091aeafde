import ProblemBoard.Proofs.Refresh.Agreement
import ProblemBoard.Proofs.Refresh.Contents
import ProblemBoard.Proofs.Refresh.Delivery
import ProblemBoard.Proofs.Refresh.Preferences

/-!
# Announcements

The *picture* of a board is what a host shows of it: the tree and its leaves, the problems of the
program as a whole and the error.  Two kinds of effects announce that it may be another one.

A step that changes the picture queues an announcement.  Only one step changes what is behind the
picture and announces nothing: another arrangement during a pause or beside an error.  There are
no problems then, and without problems all arrangements look alike.

`Watched` adds a host to the traffic on a board.  It looks at the board whenever it is told of an
announcement, at some time before it returns; meanwhile anyone may do anything.  What it holds is
then never older than what is still to be announced, and it is the picture of the board when all
effects have been delivered.
-/

namespace ProblemBoard.Refresh

/-! ## Pictures -/

/-- What a host shows of a board. -/
structure Picture where
  roots : List Node
  flat : List Problem
  global : List Problem
  error : Option String

def Board.picture (b : Board) : Picture := ⟨b.view.roots, b.view.flat, b.global, b.error⟩

/-- Whether an effect tells the host to look at the board again. -/
def Effect.announces : Effect → Bool
  | .dataChanged => true
  | .showError _ => true
  | _ => false

/-- What is shown of contents. -/
def Contents.picture (c : Contents) (mode : GroupMode) (root : Path) : Picture :=
  ⟨(View.arrange c.problems mode root).roots, (View.arrange c.problems mode root).flat, c.global,
    c.error⟩

theorem Agrees.picture {b : Board} (h : Agrees b.display) :
    b.picture = b.contents.picture b.mode b.project.root := by
  have hv : b.view = .arrange b.problems b.mode b.project.root := h.view
  unfold Board.picture
  rw [hv]
  rfl

/-- Without problems all arrangements look alike. -/
theorem Contents.picture_of_nil {c : Contents} (h : c.problems = []) (mode mode' : GroupMode)
    (root : Path) : c.picture mode root = c.picture mode' root := by
  simp only [picture, h, View.arrange_nil]
  rfl

/-! ## What is announced -/

/-- Every result that is shown is announced. -/
theorem Board.announces_news (b : Board) (result : Except ScanError ScanResult) :
    ∃ e ∈ b.news result, e.announces = true := by
  cases result with
  | ok r => exact ⟨.dataChanged, by simp [Board.news], rfl⟩
  | error e => exact ⟨.showError e.message, by simp [Board.news], rfl⟩

/-- Another arrangement is announced unless there is nothing to be arranged. -/
theorem Agrees.rearranged {b : Board} (h : Agrees b.display) (mode : GroupMode) :
    (mode = b.mode ∨ b.problems = []) ∨ ∃ e ∈ b.rearranged mode, e.announces = true := by
  unfold Board.rearranged
  by_cases hm : mode = b.mode
  · exact .inl (.inl hm)
  by_cases hb : b.machine.paused = true ∨ b.error.isSome
  · exact .inl (.inr (h.blank hb.symm).1)
  · rw [if_neg (not_or.2 ⟨hm, hb⟩)]
    exact .inr ⟨.dataChanged, .head _, rfl⟩

/-- A step announces something, or it leaves what the board holds, and the arrangement too unless
nothing is arranged. -/
theorem Agrees.kept_or_announced {b : Board} (h : Agrees b.display) (s : Step) :
    ((b.after s).contents = b.contents ∧ ((b.after s).mode = b.mode ∨ b.problems = [])) ∨
      ∃ e ∈ Moment.pushed ⟨b, s⟩, e.announces = true := by
  rw [Moment.pushed_mk, b.mode_after]
  by_cases hp : b.action s = .paused
  · rw [hp]
    exact .inr ⟨.dataChanged, by simp [Action.effects], rfl⟩
  have htold : (∃ e ∈ b.told s, e.announces = true) →
      ∃ e ∈ b.told s ++ (b.action s).effects, e.announces = true := by
    rintro ⟨e, he, ha⟩
    exact ⟨e, List.mem_append_left _ he, ha⟩
  by_cases hf : b.signal s = some .finished
  · obtain ⟨id, result, rfl⟩ := b.scanFinished_of_signal hf
    cases hpub : b.machine.scanFinished.2.publish with
    | true =>
      right
      apply htold
      rw [Board.told, hpub]
      exact b.announces_news result
    | false =>
      left
      rw [b.contents_after, if_neg hp, Board.contentsAfter, hpub]
      exact ⟨rfl, .inl rfl⟩
  have hkept := Board.contents_after_of_ne hp hf
  cases s with
  | called c =>
    cases c with
    | setMode mode | regroupThen mode =>
      rcases h.rearranged mode with hm | ha
      · exact .inl ⟨hkept, hm⟩
      · exact .inr (htold ha)
    | requestRefresh | requestImmediate | setPaused | togglePause | refreshThen | navigate
    | isPaused | updateSettings | revalidate | project | shutdown =>
      exact .inl ⟨hkept, .inl rfl⟩
  | timerFired | scanFinished | resolutionLanded => exact .inl ⟨hkept, .inl rfl⟩

section
variable {project : Project} {settings : Settings} {h : List Moment} {b : Board}

/-- A step leaves the picture, or it announces something. -/
theorem Run.picture_after (hr : Run (.start project settings) h b) {s : Step} (ha : b.Admits s) :
    (b.after s).picture = b.picture ∨ ∃ e ∈ Moment.pushed ⟨b, s⟩, e.announces = true := by
  have hroot : (b.after s).project.root = b.project.root :=
    (hr.rooted.after ha).project.trans hr.rooted.project.symm
  rcases hr.agrees.kept_or_announced s with ⟨hc, hmode⟩ | hann
  · left
    rw [(hr.agrees.after hr.rooted ha).picture, hr.agrees.picture, hroot, hc]
    rcases hmode with hm | hnil
    · rw [hm]
    · exact Contents.picture_of_nil hnil _ _ _
  · exact .inr hann

end

/-! ## A host that looks on -/

/-- A host that looks at a board. -/
structure Onlooker where
  /-- What it saw when it looked last. -/
  held : Picture
  /-- It was told to look again and has not done so yet. -/
  due : Bool

def Onlooker.hear (w : Onlooker) (e : Effect) : Onlooker := { w with due := w.due || e.announces }

/-- What can happen on a board with its callers and a host that looks on. -/
inductive Watched (b₀ : Board) :
    List Moment → Board → List Caller → List Effect → Onlooker → Prop where
  | refl : Watched b₀ [] b₀ [] [] ⟨b₀.picture, false⟩
  | step {h : List Moment} {b : Board} {cs : List Caller} {told : List Effect} {w : Onlooker}
      (s : Step) : Watched b₀ h b cs told w → b.Admits s →
      Watched b₀ (⟨b, s⟩ :: h) (b.after s) (cs ++ Moment.joining ⟨b, s⟩) told w
  | look {h : List Moment} {b : Board} {before after : List Caller} {told queued : List Effect}
      {w : Onlooker} : Watched b₀ h b (before ++ .arrived queued :: after) told w →
      Watched b₀ h b.beginDelivery.1
        (before ++ Caller.afterLook b.beginDelivery.2 ++ after) told w
  | take {h : List Moment} {b : Board} {before after : List Caller} {told : List Effect}
      {w : Onlooker} : Watched b₀ h b (before ++ .delivering [] :: after) told w →
      Watched b₀ h b.takeBatch.1 (before ++ Caller.afterTake b.takeBatch.2 ++ after) told w
  | tell {h : List Moment} {b : Board} {before after : List Caller} {told rest : List Effect}
      {e : Effect} {w : Onlooker} :
      Watched b₀ h b (before ++ .delivering (e :: rest) :: after) told w →
      Watched b₀ h b (before ++ .telling rest :: after) (told ++ [e]) (w.hear e)
  /-- The host looks at the board. -/
  | pull {h : List Moment} {b : Board} {cs : List Caller} {told : List Effect} {w : Onlooker} :
      Watched b₀ h b cs told w → Watched b₀ h b cs told ⟨b.picture, false⟩
  /-- The host returns, and not before it has looked if it was told to. -/
  | goOn {h : List Moment} {b : Board} {before after : List Caller} {told rest : List Effect}
      {w : Onlooker} : Watched b₀ h b (before ++ .telling rest :: after) told w → w.due = false →
      Watched b₀ h b (before ++ .delivering rest :: after) told w

section
variable {b₀ b : Board} {h : List Moment} {cs : List Caller} {told : List Effect} {w : Onlooker}
variable {project : Project} {settings : Settings}

theorem Watched.traffic (hw : Watched b₀ h b cs told w) : Traffic b₀ h b cs told := by
  induction hw with
  | refl => exact .refl
  | step s _ _ ih => exact ih.step s
  | look _ ih => exact ih.look
  | take _ ih => exact ih.take
  | tell _ ih => exact ih.tell
  | pull _ ih => exact ih
  | goOn _ _ ih => exact ih.goOn

theorem Watched.run (hw : Watched b₀ h b cs told w) : Run b₀ h b := by
  induction hw with
  | refl => exact .refl
  | step s _ ha ih => exact ih.step s ha
  | @look h b _ _ _ _ _ _ ih =>
    obtain ⟨flushing, hb⟩ := b.beginDelivery_frame
    rw [hb]
    exact .deliver ih (List.suffix_refl _)
  | @take h b _ _ _ _ _ ih =>
    obtain ⟨rest, flushing, hrest, hb⟩ := b.takeBatch_frame
    rw [hb]
    exact .deliver ih hrest
  | tell _ ih => exact ih
  | pull _ ih => exact ih
  | goOn _ _ ih => exact ih

/-- Only while someone tells the host of an effect it has yet to look. -/
theorem Watched.telling (hw : Watched b₀ h b cs told w) (hd : w.due = true) :
    ∃ rest, Caller.telling rest ∈ cs := by
  induction hw with
  | refl => cases hd
  | step s _ _ ih =>
    obtain ⟨rest, hmem⟩ := ih hd
    exact ⟨rest, List.mem_append_left _ hmem⟩
  | look _ ih | take _ ih =>
    obtain ⟨rest, hmem⟩ := ih hd
    refine ⟨rest, ?_⟩
    rcases List.mem_append.1 hmem with hmem | hmem
    · exact List.mem_append_left _ (List.mem_append_left _ hmem)
    · rcases List.mem_cons.1 hmem with heq | hmem
      · cases heq
      · exact List.mem_append_right _ hmem
  | @tell _ _ _ _ _ rest => exact ⟨rest, by simp⟩
  | pull => cases hd
  | goOn _ hn => rw [hn] at hd; cases hd

/-- What the host holds is the picture of the board, or it is about to look, or an announcement
is still ahead. -/
theorem Watched.held (hw : Watched (.start project settings) h b cs told w) {ahead : List Effect}
    (hahead : told ++ ahead = pushed h) :
    w.held = b.picture ∨ w.due = true ∨ ∃ e ∈ ahead, e.announces = true := by
  induction hw generalizing ahead with
  | refl => exact .inl rfl
  | @step h b cs told w s hw ha ih =>
    have hcomplete := hw.traffic.orderly.complete
    rw [List.append_assoc] at hcomplete
    rw [pushed_cons, ← hcomplete, List.append_assoc] at hahead
    rw [List.append_cancel_left hahead]
    rcases hw.run.picture_after ha with hsame | ⟨e, he, hann⟩
    · rw [hsame]
      rcases ih hcomplete with hheld | hdue | ⟨e, he, hann⟩
      · exact .inl hheld
      · exact .inr (.inl hdue)
      · exact .inr (.inr ⟨e, List.mem_append_left _ he, hann⟩)
    · exact .inr (.inr ⟨e, List.mem_append_right _ he, hann⟩)
  | @look h b _ _ _ _ _ _ ih =>
    obtain ⟨flushing, hb⟩ := b.beginDelivery_frame
    rw [hb]
    exact ih hahead
  | @take h b _ _ _ _ _ ih =>
    obtain ⟨rest, flushing, -, hb⟩ := b.takeBatch_frame
    rw [hb]
    exact ih hahead
  | @tell h b before after told rest e w hw ih =>
    rw [List.append_assoc] at hahead
    rcases ih hahead with hheld | hdue | ⟨e', he', hann⟩
    · exact .inl hheld
    · exact .inr (.inl (by simp [Onlooker.hear, hdue]))
    · rcases List.mem_cons.1 he' with rfl | he'
      · exact .inr (.inl (by simp [Onlooker.hear, hann]))
      · exact .inr (.inr ⟨e', he', hann⟩)
  | pull => exact .inl rfl
  | goOn _ _ ih => exact ih hahead

/-- A step that changes what is shown announces it.  So a host that looks at the board whenever
it is told of an announcement holds what the board shows as soon as it was told of every effect
and has looked, and in particular when no effect waits and nobody delivers. -/
theorem changes_announced :
    (∀ h b s, Run (.start project settings) h b → b.Admits s →
        (b.after s).picture ≠ b.picture →
        ∃ e ∈ Moment.pushed ⟨b, s⟩, e = .dataChanged ∨ ∃ message, e = .showError message) ∧
      ∀ h b cs told w, Watched (.start project settings) h b cs told w →
        (told = pushed h → w.due = false → w.held = b.picture) ∧
          (b.effects = [] → b.flushing = false → w.held = b.picture) := by
  refine ⟨?_, ?_⟩
  · intro h b s hr ha hne
    obtain ⟨e, he, hann⟩ := (hr.picture_after ha).resolve_left hne
    refine ⟨e, he, ?_⟩
    cases e with
    | dataChanged => exact .inl rfl
    | showError message => exact .inr ⟨message, rfl⟩
    | badge | notify | reveal => cases hann
  · intro h b cs told w hw
    have hlast : told = pushed h → w.due = false → w.held = b.picture := by
      intro htold hdue
      have hall : told ++ [] = pushed h := by rw [List.append_nil, htold]
      rcases hw.held hall with hheld | hd | ⟨e, he, -⟩
      · exact hheld
      · rw [hdue] at hd; cases hd
      · cases he
    refine ⟨hlast, ?_⟩
    intro hempty hflushing
    have ho := hw.traffic.orderly
    have hnone : cs.countP Caller.isDelivering = 0 := by
      rw [ho.single, hflushing]
      rfl
    apply hlast
    · have hcomplete := ho.complete
      rw [Caller.flatMap_batch_of_none hnone, hempty] at hcomplete
      simpa using hcomplete
    · apply Bool.eq_false_iff.2
      intro hd
      obtain ⟨rest, hmem⟩ := hw.telling hd
      exact List.countP_eq_zero.1 hnone _ hmem rfl

end

/-- A scan fails while the host is told that it began.  The host is told of the error behind that,
looks, and holds the error when the delivery has ended. -/
theorem changes_announced_failure :
    ∃ h b told w, Watched (.start (.bare ⟨"/work"⟩) .default) h b [] told w ∧
      told = [.badge .scanning, .badge .clear, .showError "scan failed unexpectedly: stopped"] ∧
      b.effects = [] ∧ b.flushing = false ∧ w.held = b.picture ∧
      w.held.error = some "scan failed unexpectedly: stopped" ∧
      ∃ m ∈ h, ∃ e ∈ m.pushed, e = .dataChanged ∨ ∃ message, e = .showError message := by
  have h₁ : Watched (.start (.bare ⟨"/work"⟩) .default) _ _ ([] ++ .arrived _ :: []) [] _ :=
    Watched.refl.step (.called .requestImmediate) trivial
  have h₂ : Watched (.start (.bare ⟨"/work"⟩) .default) _ _
      ([] ++ .delivering (_ :: _) :: []) [] _ :=
    (show Watched _ _ _ ([] ++ .delivering [] :: []) _ _ from h₁.look).take
  have h₃ : Watched (.start (.bare ⟨"/work"⟩) .default) _ _
      ([.telling []] ++ .arrived _ :: []) _ _ :=
    h₂.tell.step (.scanFinished 1 (.error (.failedUnexpectedly "stopped")))
      ⟨_, .head _, rfl, nofun⟩
  have h₄ : Watched (.start (.bare ⟨"/work"⟩) .default) _ _ ([] ++ .telling [] :: []) _ _ := h₃.look
  have h₅ : Watched (.start (.bare ⟨"/work"⟩) .default) _ _
      ([] ++ .delivering (_ :: _ :: []) :: []) _ _ := (h₄.goOn rfl).take
  have h₆ := (h₅.tell.goOn rfl).tell.pull
  have h₇ := (h₆.goOn rfl).take
  obtain ⟨hstep, hheld⟩ := @changes_announced (.bare ⟨"/work"⟩) .default
  have hsame := (hheld _ _ _ _ _ h₇).2 rfl rfl
  refine ⟨_, _, _, _, h₇, rfl, rfl, rfl, hsame, rfl, _, .head _, ?_⟩
  refine hstep _ _ _ h₂.run ⟨_, .head _, rfl, nofun⟩ ?_
  intro hpicture
  cases congrArg Picture.error hpicture

end ProblemBoard.Refresh
