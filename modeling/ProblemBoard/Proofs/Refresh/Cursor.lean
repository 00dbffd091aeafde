import ProblemBoard.Refresh.Cursor

/-!
# Moves of the cursor

A position is in the list it belongs to.  Every change of the list and every move keeps that,
so a move leads into the list: a step whenever the list has a problem, a jump whenever the
list has that position.
-/

namespace ProblemBoard.Cursor

/-- The position, if there is one, is in the list. -/
def InBounds (c : Cursor) : Prop := ∀ i, c.index = some i → i < c.length

theorem inBounds_start : start.InBounds := nofun

theorem inBounds_reset (n : Nat) : (reset n).InBounds := nofun

theorem inBounds_resize (c : Cursor) (n : Nat) : (c.resize n).InBounds := by
  intro i hi
  obtain ⟨-, hlt⟩ := Option.filter_eq_some_iff.1 hi
  exact of_decide_eq_true hlt

theorem after_lt {c : Cursor} (h : 0 < c.length) : c.after < c.length := by
  unfold after
  split
  · exact Nat.mod_lt _ h
  · exact h

theorem behind_lt {c : Cursor} (hc : c.InBounds) (h : 0 < c.length) : c.behind < c.length := by
  unfold behind
  split
  · next i hi => exact Nat.lt_of_succ_lt (hc _ hi)
  · exact Nat.sub_lt h Nat.one_pos

/-- A move leads into the list. -/
theorem target_lt {c : Cursor} (hc : c.InBounds) {m : Move} {i : Nat} (h : c.target m = some i) :
    i < c.length := by
  cases m with
  | next =>
    simp only [target] at h
    split at h
    · cases h
    · next hn =>
      rw [← Option.some.inj h]
      exact after_lt (Nat.pos_of_ne_zero hn)
  | previous =>
    simp only [target] at h
    split at h
    · cases h
    · next hn =>
      rw [← Option.some.inj h]
      exact behind_lt hc (Nat.pos_of_ne_zero hn)
  | goTo j =>
    simp only [target] at h
    split at h
    · next hj => rw [← Option.some.inj h]; exact hj
    · cases h

theorem target_next_isSome (c : Cursor) : (c.target .next).isSome ↔ 0 < c.length := by
  simp only [target]
  split <;> simp <;> omega

theorem target_previous_isSome (c : Cursor) : (c.target .previous).isSome ↔ 0 < c.length := by
  simp only [target]
  split <;> simp <;> omega

theorem target_goTo_isSome (c : Cursor) (i : Nat) : (c.target (.goTo i)).isSome ↔ i < c.length := by
  simp only [target]
  split <;> simp [*]

theorem move_of_target {c : Cursor} {m : Move} {i : Nat} (h : c.target m = some i) :
    c.move m = { c with index := some i } := by
  simp [move, h]

theorem move_of_no_target {c : Cursor} {m : Move} (h : c.target m = none) : c.move m = c := by
  simp [move, h]

@[simp] theorem move_length (c : Cursor) (m : Move) : (c.move m).length = c.length := by
  unfold move
  split <;> rfl

theorem inBounds_move {c : Cursor} (hc : c.InBounds) (m : Move) : (c.move m).InBounds := by
  cases h : c.target m with
  | none => rw [move_of_no_target h]; exact hc
  | some i =>
    rw [move_of_target h]
    intro j hj
    rw [← Option.some.inj hj]
    exact target_lt hc h

end ProblemBoard.Cursor
