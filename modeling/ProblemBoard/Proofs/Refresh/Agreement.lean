import ProblemBoard.Proofs.Refresh.Basis
import ProblemBoard.Proofs.Refresh.Cursor

/-!
# What is shown

The problems of a board are held more than once: as a list, as a tree, and as the length of
the list the cursor moves on.  `Agrees` says that these belong together, and that nothing is
shown beside an error or during a pause.  Results, errors, pauses and other arrangements each
change only some of the parts, and each keeps them together, so every run does.
-/

namespace ProblemBoard.Refresh

/-! ## Displays -/

/-- What is shown, and what it is made from. -/
structure Display where
  problems : List Problem
  global : List Problem
  view : View
  error : Option String
  mode : GroupMode
  root : Path
  cursor : Cursor
  paused : Bool

/-- What is shown on a board. -/
def Board.display (b : Board) : Display :=
  ⟨b.problems, b.global, b.view, b.error, b.mode, b.project.root, b.machine.cursor,
    b.machine.paused⟩

/-- A display that shows nothing. -/
def Display.blank (d : Display) : Display :=
  { d with problems := [], global := [], view := .empty d.mode, error := none }

/-- The parts of a display belong together. -/
structure Agrees (d : Display) : Prop where
  /-- The tree is that of the problems. -/
  view : d.view = .arrange d.problems d.mode d.root
  /-- The cursor moves on the leaves of the tree. -/
  length : d.cursor.length = d.view.flat.length
  /-- The cursor is at a leaf, if it is anywhere. -/
  inBounds : d.cursor.InBounds
  /-- Beside an error and during a pause there are no problems. -/
  blank : d.error.isSome ∨ d.paused = true → d.problems = [] ∧ d.global = []
  /-- During a pause there is no error. -/
  quiet : d.paused = true → d.error = none

@[simp] theorem View.arrange_nil (mode : GroupMode) (root : Path) :
    View.arrange [] mode root = .empty mode := by
  cases mode <;>
    simp [View.arrange, View.ofRoots, View.empty, Grouping.byFile, Grouping.byRule,
      Grouping.collect, leavesOf]

/-- Nothing but an error may be shown, with the cursor nowhere. -/
theorem agrees_of_empty {d : Display} (hp : d.problems = []) (hg : d.global = [])
    (hv : d.view = .empty d.mode) (hc : d.cursor = .start)
    (hq : d.paused = true → d.error = none) : Agrees d where
  view := by rw [hv, hp, View.arrange_nil]
  length := by rw [hv, hc]; rfl
  inBounds := by rw [hc]; exact Cursor.inBounds_start
  blank := fun _ => ⟨hp, hg⟩
  quiet := hq

theorem agrees_start (project : Project) (settings : Settings) :
    Agrees (Board.start project settings).display :=
  agrees_of_empty rfl rfl rfl rfl fun _ => rfl

/-- Where there are no problems the cursor is nowhere. -/
theorem Agrees.of_blank {d : Display} (h : Agrees d) (hb : d.error.isSome ∨ d.paused = true) :
    d.problems = [] ∧ d.global = [] ∧ d.view = .empty d.mode ∧ d.cursor.index = none := by
  obtain ⟨hp, hg⟩ := h.blank hb
  have hv : d.view = .empty d.mode := by rw [h.view, hp, View.arrange_nil]
  refine ⟨hp, hg, hv, Option.eq_none_iff_forall_ne_some.2 ?_⟩
  intro i hi
  have hlt := h.inBounds i hi
  rw [h.length, hv] at hlt
  exact Nat.not_lt_zero i hlt

/-! ## Turns of the machine -/

/-- What is shown after an action: nothing when a pause began, and otherwise what was shown. -/
theorem Board.display_apply (b : Board) (a : Action) :
    (b.apply a).display = if a = .paused then b.display.blank else b.display := by
  cases a <;> rfl

/-- A turn keeps the display together. -/
theorem Agrees.turn {b : Board} {m : Machine} {x : Signal} {a : Action} (h : Agrees b.display)
    (ht : Turn b.machine x m a) : Agrees ({ b with machine := m }.apply a).display := by
  rw [Board.display_apply]
  rcases ht.cursor with ⟨rfl, hc⟩ | ⟨ha, hc, hp⟩
  · rw [if_pos rfl]
    show Agrees { b.display.blank with cursor := m.cursor, paused := m.paused }
    exact agrees_of_empty rfl rfl rfl hc fun _ => rfl
  · rw [if_neg ha]
    show Agrees { b.display with cursor := m.cursor, paused := m.paused }
    rw [hc]
    exact {
      view := h.view
      length := h.length
      inBounds := h.inBounds
      blank := fun hb => h.blank (hb.imp_right hp)
      quiet := fun hb => h.quiet (hp hb) }

theorem Agrees.transition {b : Board} {f : Machine → Machine × Action} {x : Signal}
    (h : Agrees b.display) (ht : Turn b.machine x (f b.machine).1 (f b.machine).2) :
    Agrees (b.transition f).display :=
  h.turn ht

theorem Agrees.timerFired {b : Board} (h : Agrees b.display) (g : Nat) :
    Agrees (b.timerFired g).display := by
  have ht := h.turn (b.machine.timerElapsed_turn g)
  rw [Board.display_apply] at ht
  unfold Board.timerFired
  rw [Board.display_apply]
  exact ht

theorem Agrees.resolutionLanded {b : Board} {r : Resolution} {project : Project}
    (h : Agrees b.display) (hp : project.root = b.project.root) :
    Agrees (b.resolutionLanded r project).display := by
  by_cases hr : r.revision = b.revision
  · rw [Board.resolutionLanded_of_eq hr]
    refine Agrees.transition (x := .immediate) ?_ b.machine.requestImmediate_turn
    show Agrees { b.display with root := project.root }
    rw [hp]
    exact h
  · rw [Board.resolutionLanded_of_ne hr]
    exact h

/-! ## Results of scans -/

/-- A scan of this workspace is shown as the tree of its problems in the mode that holds now. -/
theorem Board.viewOf_result {b : Board} {s : Scan} (hs : s.project.root = b.project.root)
    (c : Collection) :
    b.viewOf (s.result c) = .arrange c.problems b.mode b.project.root := by
  show (if s.mode = b.mode then View.arrange c.problems s.mode s.project.root else _) = _
  split
  · next hm => rw [hm, hs]
  · rfl

theorem Board.display_publish (b : Board) (r : ScanResult) :
    (b.publish r).display =
      { b.display with
        problems := r.collection.problems
        global := r.collection.global
        view := b.viewOf r
        error := none
        cursor := b.machine.cursor.resize (b.viewOf r).flat.length } := by
  unfold Board.publish Board.viewOf
  dsimp only
  rw [Board.notifyFailures_eq]
  rfl

theorem agrees_publish {b : Board} {s : Scan} (hp : b.machine.paused = false)
    (hs : s.project.root = b.project.root) (c : Collection) :
    Agrees (b.publish (s.result c)).display := by
  rw [b.display_publish, Board.viewOf_result hs]
  exact {
    view := rfl
    length := rfl
    inBounds := Cursor.inBounds_resize _ _
    blank := by simp [Board.display, hp]
    quiet := fun _ => rfl }

theorem agrees_publishError {b : Board} (hp : b.machine.paused = false) (e : ScanError) :
    Agrees (b.publishError e).display :=
  agrees_of_empty rfl rfl rfl rfl fun h => absurd (h.symm.trans hp) (by decide)

theorem agrees_report {b : Board} {result : Except ScanError ScanResult}
    (hp : b.machine.paused = false)
    (ha : ∀ r, result = .ok r → ∃ s c, r = Scan.result s c ∧ s.project.root = b.project.root) :
    Agrees (b.report result).display := by
  cases result with
  | ok r =>
    obtain ⟨s, c, rfl, hs⟩ := ha r rfl
    exact agrees_publish hp hs c
  | error e => exact agrees_publishError hp e

theorem Agrees.scanFinished {b : Board} {id : Nat} {result : Except ScanError ScanResult}
    (h : Agrees b.display)
    (ha : ∀ r, result = .ok r → ∃ s c, r = Scan.result s c ∧ s.project.root = b.project.root) :
    Agrees (b.scanFinished id result).display := by
  have hn := b.machine.scanFinished_turn.ne_of_finished.2
  have ht := h.turn b.machine.scanFinished_turn
  rw [Board.display_apply, if_neg hn] at ht
  unfold Board.scanFinished
  dsimp only
  rw [Board.display_apply, if_neg hn]
  split
  · next hp =>
    rw [Machine.scanFinished_publish, Bool.and_eq_true, Bool.not_eq_true', Bool.not_eq_true'] at hp
    exact agrees_report (b.machine.scanFinished_paused.trans hp.2) ha
  · exact ht

/-! ## Arrangement, settings and navigation -/

theorem Agrees.setMode {b : Board} (h : Agrees b.display) (mode : GroupMode) :
    Agrees (b.setMode mode).display := by
  unfold Board.setMode
  split
  · exact h
  · dsimp only
    split
    · next hb =>
      have hb : b.error.isSome ∨ b.machine.paused = true := by simpa [or_comm] using hb
      obtain ⟨hp, -, hv, -⟩ := h.of_blank hb
      have hl := h.length
      rw [hv] at hl
      refine ⟨?_, hl, h.inBounds, h.blank, h.quiet⟩
      show View.empty mode = .arrange b.display.problems mode _
      rw [hp, View.arrange_nil]
    · exact {
        view := rfl
        length := rfl
        inBounds := Cursor.inBounds_reset _
        blank := h.blank
        quiet := h.quiet }

theorem Board.display_navigate (b : Board) (move : Cursor.Move) :
    (b.navigate move).1.display = { b.display with cursor := b.machine.cursor.move move } := by
  unfold Board.navigate
  dsimp only
  split
  · rfl
  · split <;> rfl

theorem Agrees.navigate {b : Board} (h : Agrees b.display) (move : Cursor.Move) :
    Agrees (b.navigate move).1.display := by
  rw [b.display_navigate move]
  exact {
    view := h.view
    length := (Cursor.move_length _ move).trans h.length
    inBounds := Cursor.inBounds_move h.inBounds move
    blank := h.blank
    quiet := h.quiet }

/-! ## Runs -/

theorem Agrees.after {b : Board} {s : Step} {root : Path} (h : Agrees b.display)
    (hr : Rooted root b) (ha : b.Admits s) : Agrees (b.after s).display := by
  cases s with
  | called c =>
    cases c with
    | requestRefresh => exact h.transition b.machine.requestRefresh_turn
    | requestImmediate => exact h.transition b.machine.requestImmediate_turn
    | setPaused paused => exact h.transition (b.machine.setPaused_turn paused)
    | togglePause => exact h.transition (b.machine.setPaused_turn !b.machine.paused)
    | setMode mode | regroupThen mode => exact h.setMode mode
    | refreshThen changed =>
      cases changed with
      | true => exact h
      | false => exact h.transition b.machine.requestRefresh_turn
    | navigate move => exact h.navigate move
    | isPaused | updateSettings | revalidate | project => exact h
    | shutdown => exact ha.elim
  | timerFired g => exact h.timerFired g
  | scanFinished id result =>
    obtain ⟨s, hs, -, hc⟩ := ha
    refine h.scanFinished fun r hok => ?_
    obtain ⟨c, rfl⟩ := hc r hok
    exact ⟨s, c, rfl, (hr.scans s hs).trans hr.project.symm⟩
  | resolutionLanded r project =>
    obtain ⟨hm, fs, rfl⟩ := ha
    exact h.resolutionLanded ((hr.resolutions r hm).trans hr.project.symm)

section
variable {project : Project} {settings : Settings} {h : List Moment} {b : Board}

theorem Run.agrees (hr : Run (.start project settings) h b) : Agrees b.display := by
  induction hr with
  | refl => exact agrees_start project settings
  | step _ hr ha ih => exact ih.after hr.rooted ha
  | deliver _ _ ih => exact ih

/-- A move that leads somewhere reveals the problem there. -/
theorem Board.navigate_of_target (hd : Agrees b.display) {move : Cursor.Move} {i : Nat}
    (ht : b.machine.cursor.target move = some i) :
    ∃ p, b.view.flat[i]? = some p ∧ (b.navigate move).2 = some p ∧
      (b.navigate move).1.machine.cursor.index = some i ∧
      (b.navigate move).1.effects = b.effects ++ [.reveal p] := by
  have hlt : i < b.view.flat.length := hd.length ▸ Cursor.target_lt hd.inBounds ht
  have hp : b.view.flat[i]? = some b.view.flat[i] := List.getElem?_eq_getElem hlt
  refine ⟨b.view.flat[i], hp, ?_⟩
  simp [Board.navigate, Machine.navigate, ht, hp, Cursor.move_of_target ht, Board.push]

/-- A move that leads nowhere changes nothing. -/
theorem Board.navigate_of_no_target {move : Cursor.Move}
    (ht : b.machine.cursor.target move = none) : b.navigate move = (b, none) := by
  simp [Board.navigate, Machine.navigate, ht, Cursor.move_of_no_target ht]

theorem Board.navigate_isSome (hd : Agrees b.display) (move : Cursor.Move) :
    (b.navigate move).2.isSome ↔ (b.machine.cursor.target move).isSome := by
  cases ht : b.machine.cursor.target move with
  | none => simp [Board.navigate_of_no_target ht]
  | some i =>
    obtain ⟨p, -, hp, -⟩ := Board.navigate_of_target hd ht
    simp [hp]

/-- In every run the tree is that of the problems, in the mode and for the workspace that
hold now; the cursor moves on its leaves, and is at one of them or nowhere; and beside an
error or during a pause nothing is shown.  So a step of the cursor leads to a problem whenever
there is one and a jump whenever the tree has that position; what is revealed is the problem
under the cursor, and a move that leads nowhere changes nothing. -/
theorem display_agrees (hr : Run (.start project settings) h b) :
    b.view = .arrange b.problems b.mode b.project.root ∧
      b.machine.cursor.length = b.view.flat.length ∧
      (∀ i, b.machine.cursor.index = some i → i < b.view.flat.length) ∧
      (b.error.isSome ∨ b.machine.paused = true →
        b.problems = [] ∧ b.global = [] ∧ b.view = .empty b.mode ∧
          b.machine.cursor.index = none) ∧
      ((b.navigate .next).2.isSome ↔ b.view.flat ≠ []) ∧
      ((b.navigate .previous).2.isSome ↔ b.view.flat ≠ []) ∧
      (∀ i, (b.navigate (.goTo i)).2.isSome ↔ i < b.view.flat.length) ∧
      (∀ move p, (b.navigate move).2 = some p →
        ∃ i, (b.navigate move).1.machine.cursor.index = some i ∧ b.view.flat[i]? = some p ∧
          (b.navigate move).1.effects = b.effects ++ [.reveal p]) ∧
      ∀ move, (b.navigate move).2 = none → (b.navigate move).1 = b := by
  have hd := hr.agrees
  have hl : b.machine.cursor.length = b.view.flat.length := hd.length
  have hne : 0 < b.machine.cursor.length ↔ b.view.flat ≠ [] := by
    rw [hl, List.length_pos_iff]
  refine ⟨hd.view, hl, ?_, fun hb => hd.of_blank hb, ?_, ?_, ?_, ?_, ?_⟩
  · intro i hi
    exact hl ▸ hd.inBounds i hi
  · rw [Board.navigate_isSome hd, Cursor.target_next_isSome, hne]
  · rw [Board.navigate_isSome hd, Cursor.target_previous_isSome, hne]
  · intro i
    rw [Board.navigate_isSome hd, Cursor.target_goTo_isSome, hl]
  · intro move p hp
    cases ht : b.machine.cursor.target move with
    | none => rw [Board.navigate_of_no_target ht] at hp; cases hp
    | some i =>
      obtain ⟨q, hq, hnav, hi, he⟩ := Board.navigate_of_target hd ht
      obtain rfl : q = p := Option.some.inj (hnav.symm.trans hp)
      exact ⟨i, hi, hq, he⟩
  · intro move hnone
    cases ht : b.machine.cursor.target move with
    | none => rw [Board.navigate_of_no_target ht]
    | some i =>
      obtain ⟨q, -, hnav, -⟩ := Board.navigate_of_target hd ht
      rw [hnav] at hnone
      cases hnone

end

/-- Another mode is chosen while a scan runs: its one problem is shown in that mode, and a
step forward reveals it. -/
theorem display_agrees_regrouped :
    ∃ h b p, Run (.start (.bare ⟨"/work"⟩) .default) h b ∧ h.length = 3 ∧
      b.view = .arrange [p] .rule ⟨"/work"⟩ ∧ (b.navigate .next).2 = some p ∧
      (b.navigate .next).1.effects = b.effects ++ [.reveal p] := by
  let p : Problem := ⟨⟨"/work/a.ts"⟩, .point ⟨0, 0⟩, .error, "missing name", "tsc", some "2304"⟩
  have hr : Run (.start (.bare ⟨"/work"⟩) .default) _ _ :=
    ((Run.refl.step (.called .requestImmediate) trivial).step (.called (.setMode .rule))
      trivial).step (.scanFinished 1 (.ok (Scan.result ⟨1, .bare ⟨"/work"⟩, _, _⟩ ⟨[p], [], []⟩)))
      ⟨_, .head _, rfl, fun _ hok => ⟨_, (Except.ok.inj hok).symm⟩⟩
  obtain ⟨hv, -, -, -, hnext, -, -, hreveal, -⟩ := display_agrees hr
  have hf : (View.arrange [p] .rule ⟨"/work"⟩).flat = [p] := by
    simp [View.arrange, View.ofRoots, Grouping.byRule, Grouping.collect, Grouping.addMember,
      Grouping.leafOf, leavesOf, Node.leaves]
  have hf := (congrArg View.flat hv).trans hf
  obtain ⟨q, hq⟩ := Option.isSome_iff_exists.1 (hnext.2 (by rw [hf]; exact List.cons_ne_nil _ _))
  obtain ⟨i, -, hi, he⟩ := hreveal .next q hq
  rw [hf] at hi
  obtain rfl := List.mem_singleton.1 (List.mem_of_getElem? hi)
  exact ⟨_, _, p, hr, rfl, hv, hq, he⟩

end ProblemBoard.Refresh
