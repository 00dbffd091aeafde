import ProblemBoard.Path.Basic

/-!
# The order of paths

Components are linearly ordered, and so are the lists of components that paths stand for.
Two paths of which neither stands in front of the other have the same components, though
they may be spelled differently.
-/

namespace ProblemBoard

namespace Component

/-! ## Components -/

theorem eq_of_rank_of_text {a b : Component} (hr : a.rank = b.rank) (ht : a.text = b.text) :
    a = b := by
  cases a <;> cases b <;> simp_all [rank, text]

theorem lt_irrefl (a : Component) : ¬ a < a := by
  rintro (h | ⟨_, h⟩)
  · exact Nat.lt_irrefl _ h
  · exact String.lt_irrefl _ h

theorem lt_trans {a b c : Component} (hab : a < b) (hbc : b < c) : a < c := by
  rcases hab with hab | ⟨hab, tab⟩ <;> rcases hbc with hbc | ⟨hbc, tbc⟩
  · exact .inl (Nat.lt_trans hab hbc)
  · exact .inl (hbc ▸ hab)
  · exact .inl (hab ▸ hbc)
  · exact .inr ⟨hab.trans hbc, String.lt_trans tab tbc⟩

theorem eq_of_not_lt {a b : Component} (hab : ¬ a < b) (hba : ¬ b < a) : a = b := by
  have hr : a.rank = b.rank :=
    Nat.le_antisymm (Nat.le_of_not_lt fun h => hba (.inl h))
      (Nat.le_of_not_lt fun h => hab (.inl h))
  refine eq_of_rank_of_text hr (String.le_antisymm ?_ ?_)
  · exact fun h => hba (.inr ⟨hr.symm, h⟩)
  · exact fun h => hab (.inr ⟨hr, h⟩)

instance : Std.Irrefl (· < · : Component → Component → Prop) := ⟨lt_irrefl⟩

instance : Trans (· < · : Component → Component → Prop) (· < ·) (· < ·) := ⟨lt_trans⟩

instance : Std.Trichotomous (· < · : Component → Component → Prop) :=
  ⟨fun _ _ => eq_of_not_lt⟩

end Component

namespace Path

/-! ## Paths -/

theorem same_iff {p q : Path} : p.same q = true ↔ p.components = q.components := by
  simp [same]

theorem same_refl (p : Path) : p.same p = true := same_iff.2 rfl

theorem same_symm {p q : Path} (h : p.same q = true) : q.same p = true :=
  same_iff.2 (same_iff.1 h).symm

theorem same_trans {p q r : Path} (hpq : p.same q = true) (hqr : q.same r = true) :
    p.same r = true :=
  same_iff.2 ((same_iff.1 hpq).trans (same_iff.1 hqr))

theorem fileName_eq_of_same {p q : Path} (h : p.same q = true) : p.fileName = q.fileName := by
  rw [fileName, fileName, same_iff.1 h]

theorem before_iff {p q : Path} : p.before q = true ↔ p.components < q.components := by
  simp [before]

theorem before_eq_of_same {p p' q q' : Path} (hp : p.same p' = true) (hq : q.same q' = true) :
    p.before q = p'.before q' := by
  rw [before, before, same_iff.1 hp, same_iff.1 hq]

theorem before_trans {p q r : Path} (hpq : p.before q = true) (hqr : q.before r = true) :
    p.before r = true :=
  before_iff.2 (List.lt_trans (before_iff.1 hpq) (before_iff.1 hqr))

/-- A path does not stand in front of one with the same components. -/
theorem not_same_of_before {p q : Path} (h : p.before q = true) : p.same q = false := by
  apply Bool.eq_false_iff.2
  intro hs
  rw [before_iff, same_iff.1 hs] at h
  exact List.lt_irrefl _ h

/-- Of two paths with different components one stands in front of the other. -/
theorem before_of_not_before {p q : Path} (hs : p.same q = false) (h : q.before p = false) :
    p.before q = true := by
  apply before_iff.2
  apply Decidable.byContradiction
  intro hlt
  have hgt : ¬ q.components < p.components := fun g => by simp [before, g] at h
  have heq : p.components = q.components := List.le_antisymm hgt hlt
  simp [same, heq] at hs

theorem not_before_of_before {p q : Path} (h : p.before q = true) : q.before p = false := by
  apply Bool.eq_false_iff.2
  intro hq
  exact List.lt_irrefl _ (before_iff.1 (before_trans h hq))

/-- What does not stand in front of a path does not stand in front of a later one either. -/
theorem not_before_trans {p q r : Path} (hqp : q.before p = false) (hrq : r.before q = false) :
    r.before p = false := by
  apply Bool.eq_false_iff.2
  intro hrp
  cases hs : p.same q with
  | true =>
    rw [before_iff, same_iff.1 hs, ← before_iff, hrq] at hrp
    cases hrp
  | false =>
    have hpq := before_of_not_before hs hqp
    rw [before_trans hrp hpq] at hrq
    cases hrq

end Path

end ProblemBoard
