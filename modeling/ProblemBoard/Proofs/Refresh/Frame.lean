import ProblemBoard.Proofs.Refresh.Effects

/-!
# What the parts of steps touch

A step is put together from parts, and each part touches only some of what a board holds.  A
lemma of this module names what a part may touch: the rest is as it was before.  Of the machine
that is the cursor, and nothing else.  What a part brings to the places it touches is left open
here; the modules on single places say it.
-/

namespace ProblemBoard.Refresh

variable (b : Board)

/-! ## Results of scans -/

theorem Board.report_frame (result : Except ScanError ScanResult) :
    ∃ cursor problems global view error notified effects,
      b.report result =
        { b with
          machine := { b.machine with cursor }
          problems, global, view, error, notified, effects } := by
  cases result with
  | error e => exact ⟨_, _, _, _, _, _, _, rfl⟩
  | ok r =>
    unfold Board.report Board.publish
    dsimp only
    rw [Board.notifyFailures_eq]
    exact ⟨_, _, _, _, _, _, _, rfl⟩

/-- The end of a scan first touches what is shown and told, and the scans that run; then comes
what follows from the machine. -/
theorem Board.scanFinished_frame (id : Nat) (result : Except ScanError ScanResult) :
    ∃ cursor problems global view error notified effects,
      b.scanFinished id result =
        Board.apply
          { b with
            machine := { b.machine.scanFinished.1 with cursor }
            problems, global, view, error, notified, effects
            scans := b.scans.filter (·.id != id) }
          b.machine.scanFinished.2.next := by
  unfold Board.scanFinished
  dsimp only
  split
  · obtain ⟨cursor, problems, global, view, error, notified, effects, he⟩ :=
      Board.report_frame { b with
        machine := b.machine.scanFinished.1, scans := b.scans.filter (·.id != id) } result
    rw [he]
    exact ⟨cursor, problems, global, view, error, notified, effects, rfl⟩
  · exact ⟨_, _, _, _, _, _, _, rfl⟩

/-! ## Arrangement and navigation -/

theorem Board.setMode_frame (mode : GroupMode) :
    ∃ cursor view effects,
      b.setMode mode =
        { b with machine := { b.machine with cursor }, mode, view, effects } := by
  unfold Board.setMode
  dsimp only
  split
  · next hm =>
    subst hm
    exact ⟨_, _, _, rfl⟩
  · split
    · exact ⟨_, _, _, rfl⟩
    · exact ⟨_, _, _, rfl⟩

theorem Board.navigate_frame (move : Cursor.Move) :
    ∃ cursor effects,
      (b.navigate move).1 = { b with machine := { b.machine with cursor }, effects } := by
  unfold Board.navigate
  dsimp only
  split
  · exact ⟨_, _, rfl⟩
  · split
    · exact ⟨_, _, rfl⟩
    · exact ⟨_, _, rfl⟩

/-! ## Delivery -/

theorem Board.beginDelivery_frame :
    ∃ flushing, b.beginDelivery.1 = { b with effects := b.effects, flushing } := by
  unfold Board.beginDelivery
  split
  · exact ⟨_, rfl⟩
  · exact ⟨_, rfl⟩

theorem Board.takeBatch_frame :
    ∃ rest flushing, rest <:+ b.effects ∧
      b.takeBatch.1 = { b with effects := rest, flushing } := by
  by_cases hn : b.effects = []
  · rw [Board.takeBatch_of_nil hn]
    exact ⟨_, _, List.suffix_refl _, rfl⟩
  · rw [Board.takeBatch_of_ne_nil hn]
    exact ⟨_, _, List.nil_suffix, rfl⟩

end ProblemBoard.Refresh
