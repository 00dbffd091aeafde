import ProblemBoard.Proofs.Refresh.Run

/-!
# Calls and their steps

In a run the steps of calls come in any order.  A *course* is a run in which each call takes
its own steps one after another: a call begins with its first step, and what is left of it is
under way until its last step is taken.  Any number of calls may be under way at once, and
everything else may happen between their steps.  New settings are the only calls of more than
one step, so when nothing is under way no settings are half taken over.
-/

namespace ProblemBoard.Refresh

/-- What is left of a call after its next step. -/
def Call.remainder (b : Board) (c : Call) : List Call :=
  match (c.step b).rest with
  | .inl d => [d]
  | .inr _ => []

/-- Whether a host can make a call, or it is only what is left of another one. -/
def Call.isWhole : Call → Bool
  | .regroupThen _ _ => false
  | .refreshThen _ => false
  | _ => true

/-- Whether a step is one of a call. -/
def Step.isCall : Step → Bool
  | .called _ => true
  | _ => false

/-- The courses from a board: their moments, newest first, the calls that are under way, and
the board they lead to. -/
inductive Course (b₀ : Board) : List Moment → List Call → Board → Prop where
  | refl : Course b₀ [] [] b₀
  /-- A call begins. -/
  | begin {h : List Moment} {cs : List Call} {b : Board} (c : Call) :
      Course b₀ h cs b → c.isWhole = true → b.Admits (.called c) →
        Course b₀ (⟨b, .called c⟩ :: h) (cs ++ c.remainder b) (b.after (.called c))
  /-- A call that is under way takes its next step. -/
  | goOn {h : List Moment} {b : Board} {c : Call} (cs ds : List Call) :
      Course b₀ h (cs ++ c :: ds) b →
        Course b₀ (⟨b, .called c⟩ :: h) (cs ++ c.remainder b ++ ds) (b.after (.called c))
  /-- Something else happens. -/
  | other {h : List Moment} {cs : List Call} {b : Board} (s : Step) :
      Course b₀ h cs b → b.Admits s → s.isCall = false →
        Course b₀ (⟨b, s⟩ :: h) cs (b.after s)
  /-- Effects are taken off the queue, and a delivery may begin or end. -/
  | deliver {h : List Moment} {cs : List Call} {b : Board} {rest : List Effect}
      {flushing : Bool} :
      Course b₀ h cs b → rest <:+ b.effects → Course b₀ h cs { b with effects := rest, flushing }

/-- Only new settings are ever left half done. -/
theorem Call.not_isWhole_of_mem_remainder {b : Board} {c d : Call} (hd : d ∈ c.remainder b) :
    d.isWhole = false := by
  cases c with
  | updateSettings | regroupThen =>
    rw [List.mem_singleton.1 hd]
    rfl
  | _ => cases hd

theorem Course.not_isWhole {b₀ b : Board} {h : List Moment} {cs : List Call}
    (hc : Course b₀ h cs b) : ∀ c ∈ cs, c.isWhole = false := by
  induction hc with
  | refl => exact fun _ hd => absurd hd List.not_mem_nil
  | other _ _ _ _ ih => exact ih
  | deliver _ _ ih => exact ih
  | begin c _ _ _ ih =>
    intro d hd
    rcases List.mem_append.1 hd with hd | hd
    · exact ih d hd
    · exact Call.not_isWhole_of_mem_remainder hd
  | @goOn _ b c cs ds _ ih =>
    intro d hd
    rw [List.append_assoc, List.mem_append, List.mem_append] at hd
    rcases hd with hd | hd | hd
    · exact ih d (List.mem_append_left _ hd)
    · exact Call.not_isWhole_of_mem_remainder hd
    · exact ih d (List.mem_append_right _ (.tail _ hd))

/-- What is left of a call can always go on. -/
theorem Board.admits_of_not_isWhole {b : Board} {c : Call} (hc : c.isWhole = false) :
    b.Admits (.called c) := by
  cases c with
  | shutdown => cases hc
  | _ => trivial

theorem Course.admits_next {b₀ b : Board} {h : List Moment} {cs ds : List Call} {c : Call}
    (hc : Course b₀ h (cs ++ c :: ds) b) : b.Admits (.called c) :=
  Board.admits_of_not_isWhole (hc.not_isWhole c (List.mem_append_right _ (.head _)))

/-- A course is a run. -/
theorem Course.run {b₀ b : Board} {h : List Moment} {cs : List Call} (hc : Course b₀ h cs b) :
    Run b₀ h b := by
  induction hc with
  | refl => exact .refl
  | begin c _ _ ha ih => exact ih.step _ ha
  | goOn _ _ hc ih => exact ih.step _ hc.admits_next
  | other s _ ha _ ih => exact ih.step s ha
  | deliver _ hrest ih => exact ih.deliver hrest

/-- Every moment of a course stands at the end of a course of its own. -/
theorem Course.at_moment {b₀ b : Board} {later earlier : List Moment} {m : Moment}
    {cs : List Call} (hc : Course b₀ (later ++ m :: earlier) cs b) :
    ∃ cs', Course b₀ earlier cs' m.board := by
  generalize hh : later ++ m :: earlier = h at hc
  induction hc generalizing later with
  | refl => simp at hh
  | deliver _ _ ih => exact ih hh
  | begin c hc _ _ ih | other s hc _ _ ih | goOn cs ds hc ih =>
    cases later with
    | nil =>
      obtain ⟨rfl, rfl⟩ := List.cons.inj hh
      exact ⟨_, hc⟩
    | cons k later => exact ih (List.cons.inj hh).2

end ProblemBoard.Refresh
