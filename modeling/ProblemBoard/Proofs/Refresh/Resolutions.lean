import ProblemBoard.Proofs.Refresh.Settled

/-!
# The newest resolution

Every request for a resolution gets the next number, and the resolution keeps it until it comes
back.  So it counts when it comes back exactly if none was requested after it, and the numbers of
those that count rise.

New settings that name other configurations request a resolution with their last step, and it
takes the names that hold then.  As long as no settings are half taken over, the newest resolution
goes by the names that hold now, whether it is under way or has come back.
-/

namespace ProblemBoard.Refresh

/-! ## Requests and landings -/

/-- Whether a step requests a resolution. -/
def Step.revalidates : Step → Bool
  | .called .revalidate => true
  | .called (.refreshThen changed) => changed
  | _ => false

/-- The resolution that would be requested now. -/
def Board.nextResolution (b : Board) : Resolution := ⟨b.revision + 1, b.project.root, b.overrides⟩

/-- The resolutions that a step leaves under way. -/
def Step.unresolved (rs : List Resolution) : Step → List Resolution
  | .resolutionLanded r _ => rs.filter (·.revision != r.revision)
  | _ => rs

/-- The number of the resolution that counts at a moment, if one does. -/
def Moment.landed? (m : Moment) : Option Nat :=
  if m.board.lands m.step then some m.board.revision else none

/-- The numbers of the resolutions that counted in the course of some moments, oldest first. -/
def landed (h : List Moment) : List Nat := h.reverse.filterMap Moment.landed?

@[simp] theorem landed_nil : landed [] = [] := rfl

@[simp] theorem landed_cons (m : Moment) (h : List Moment) :
    landed (m :: h) = landed h ++ m.landed?.toList := by
  simp only [landed, List.reverse_cons, List.filterMap_append, List.filterMap_cons,
    List.filterMap_nil]
  cases m.landed? <;> rfl

/-- A resolution is not requested by the step with which another one comes back. -/
theorem Board.not_lands_of_revalidates {b : Board} {s : Step} (h : s.revalidates = true) :
    b.lands s = false := by
  cases s with
  | resolutionLanded => cases h
  | called | timerFired | scanFinished => rfl

/-! ## What a step does to resolutions -/

theorem Board.revision_after (b : Board) (s : Step) :
    (b.after s).revision = b.revision + if s.revalidates then 1 else 0 := by
  have h : (b.after s).revision = (b.basisAfter s).revision :=
    congrArg Basis.revision (b.basis_after s)
  rw [h]
  cases s with
  | called c =>
    cases c with
    | refreshThen changed => cases changed <;> rfl
    | _ => rfl
  | _ => rfl

theorem Board.resolutions_after (b : Board) (s : Step) :
    (b.after s).resolutions =
      s.unresolved b.resolutions ++ if s.revalidates then [b.nextResolution] else [] := by
  have h : (b.after s).resolutions = (b.basisAfter s).resolutions :=
    congrArg Basis.resolutions (b.basis_after s)
  rw [h]
  cases s with
  | called c =>
    cases c with
    | revalidate => rfl
    | refreshThen changed =>
      cases changed with
      | true => rfl
      | false => exact (List.append_nil _).symm
    | _ => exact (List.append_nil _).symm
  | _ => exact (List.append_nil _).symm

theorem Step.unresolved_sublist (rs : List Resolution) (s : Step) :
    (s.unresolved rs).Sublist rs := by
  cases s with
  | resolutionLanded => exact List.filter_sublist
  | called | timerFired | scanFinished => exact List.Sublist.refl rs

/-- A resolution that came back and counted has left, with its number. -/
theorem Step.ne_of_mem_unresolved {b : Board} {s : Step} {q : Resolution}
    (hl : b.lands s = true) (hq : q ∈ s.unresolved b.resolutions) : q.revision ≠ b.revision := by
  cases s with
  | resolutionLanded r project =>
    have hr : r.revision = b.revision := of_decide_eq_true hl
    have hne := (List.mem_filter.1 hq).2
    rw [bne_iff_ne, hr] at hne
    exact hne
  | called | timerFired | scanFinished => cases hl

/-! ## Numbers along a run -/

/-- How the resolutions of a board stand to the moments of its run. -/
structure Numbered (h : List Moment) (b : Board) : Prop where
  /-- There are as many numbers as there were requests. -/
  revision : b.revision = h.countP (·.step.revalidates)
  /-- Those under way stand in the order of their numbers. -/
  rising : b.resolutions.Pairwise fun q r => q.revision < r.revision
  /-- One under way was requested at some moment, and its number is as far behind the newest one
  as there were requests since. -/
  requested : ∀ r ∈ b.resolutions, ∃ since k before, h = since ++ k :: before ∧
    k.step.revalidates = true ∧ r = k.board.nextResolution ∧
      b.revision = r.revision + since.countP (·.step.revalidates)
  /-- One under way has not counted yet. -/
  waiting : ∀ r ∈ b.resolutions, r.revision ∉ landed h
  /-- No number is given out before its request. -/
  bounded : ∀ n ∈ landed h, n ≤ b.revision
  /-- The numbers of those that counted rise. -/
  landed_rising : (landed h).Pairwise (· < ·)

theorem Numbered.le {h : List Moment} {b : Board} {r : Resolution} (hn : Numbered h b)
    (hr : r ∈ b.resolutions) : r.revision ≤ b.revision := by
  obtain ⟨since, k, before, -, -, -, he⟩ := hn.requested r hr
  omega

/-- Two resolutions under way have two numbers. -/
theorem Numbered.eq_of_revision {h : List Moment} {b : Board} {q r : Resolution}
    (hn : Numbered h b) (hq : q ∈ b.resolutions) (hr : r ∈ b.resolutions)
    (he : q.revision = r.revision) : q = r := by
  obtain ⟨i, hi, rfl⟩ := List.getElem_of_mem hq
  obtain ⟨j, hj, rfl⟩ := List.getElem_of_mem hr
  have hlt := List.pairwise_iff_getElem.1 hn.rising
  rcases Nat.lt_trichotomy i j with hij | rfl | hji
  · exact absurd he (Nat.ne_of_lt (hlt i j hi hj hij))
  · rfl
  · exact absurd he.symm (Nat.ne_of_lt (hlt j i hj hi hji))

/-- A request gives the next number to a resolution that joins the others. -/
theorem Numbered.after_request {h : List Moment} {b : Board} {s : Step} (hn : Numbered h b)
    (hs : s.revalidates = true) : Numbered (⟨b, s⟩ :: h) (b.after s) := by
  have hl : landed (⟨b, s⟩ :: h) = landed h := by
    simp [Moment.landed?, Board.not_lands_of_revalidates hs]
  have hrev : (b.after s).revision = b.revision + 1 := by
    rw [b.revision_after, hs]
    rfl
  have hres : ∀ r ∈ (b.after s).resolutions, r ∈ b.resolutions ∨ r = b.nextResolution := by
    intro r hr
    rw [b.resolutions_after, hs] at hr
    rcases List.mem_append.1 hr with hr | hr
    · exact .inl ((s.unresolved_sublist _).subset hr)
    · exact .inr (List.mem_singleton.1 hr)
  refine ⟨?_, ?_, ?_, ?_, ?_, ?_⟩
  · rw [hrev, hn.revision, List.countP_cons, hs]
    rfl
  · rw [b.resolutions_after, hs]
    refine List.pairwise_append.2 ⟨hn.rising.sublist (s.unresolved_sublist _),
      List.pairwise_singleton _ _, ?_⟩
    intro q hq r hr
    rw [List.mem_singleton.1 hr]
    exact Nat.lt_succ_of_le (hn.le ((s.unresolved_sublist _).subset hq))
  · intro r hr
    rcases hres r hr with hr | rfl
    · obtain ⟨since, k, before, rfl, hk, hkr, he⟩ := hn.requested r hr
      refine ⟨⟨b, s⟩ :: since, k, before, rfl, hk, hkr, ?_⟩
      rw [hrev, List.countP_cons, hs, he]
      exact Nat.add_assoc _ _ _
    · exact ⟨[], _, h, rfl, hs, rfl, hrev⟩
  · intro r hr
    rw [hl]
    rcases hres r hr with hr | rfl
    · exact hn.waiting r hr
    · intro hm
      exact Nat.not_succ_le_self _ (hn.bounded _ hm)
  · intro n hm
    rw [hl] at hm
    rw [hrev]
    exact Nat.le_succ_of_le (hn.bounded n hm)
  · rw [hl]
    exact hn.landed_rising

/-- A resolution that comes back leaves the others, and its number is greater than those of all
that counted before if it counts. -/
theorem Numbered.after_other {h : List Moment} {b : Board} {s : Step} (hn : Numbered h b)
    (ha : b.Admits s) (hs : s.revalidates = false) : Numbered (⟨b, s⟩ :: h) (b.after s) := by
  have hrev : (b.after s).revision = b.revision := by
    rw [b.revision_after, hs]
    rfl
  have hres : (b.after s).resolutions = s.unresolved b.resolutions := by
    rw [b.resolutions_after, hs]
    exact List.append_nil _
  have hold : ∀ r ∈ (b.after s).resolutions, r ∈ b.resolutions := by
    intro r hr
    rw [hres] at hr
    exact (s.unresolved_sublist _).subset hr
  have hl : landed (⟨b, s⟩ :: h) = landed h ++ if b.lands s then [b.revision] else [] := by
    rw [landed_cons, Moment.landed?]
    cases b.lands s <;> rfl
  have hnew : b.lands s = true → b.revision ∉ landed h := by
    intro hlands
    cases s with
    | resolutionLanded r project =>
      have hr : r.revision = b.revision := of_decide_eq_true hlands
      exact hr ▸ hn.waiting r ha.1
    | called | timerFired | scanFinished => cases hlands
  refine ⟨?_, ?_, ?_, ?_, ?_, ?_⟩
  · rw [hrev, hn.revision, List.countP_cons, hs]
    rfl
  · rw [hres]
    exact hn.rising.sublist (s.unresolved_sublist _)
  · intro r hr
    obtain ⟨since, k, before, rfl, hk, hkr, he⟩ := hn.requested r (hold r hr)
    refine ⟨⟨b, s⟩ :: since, k, before, rfl, hk, hkr, ?_⟩
    rw [hrev, List.countP_cons, hs, he]
    rfl
  · intro r hr hm
    rw [hl] at hm
    rcases List.mem_append.1 hm with hm | hm
    · exact hn.waiting r (hold r hr) hm
    · cases hlands : b.lands s with
      | true =>
        rw [hlands] at hm
        rw [hres] at hr
        exact Step.ne_of_mem_unresolved hlands hr (List.mem_singleton.1 hm)
      | false =>
        rw [hlands] at hm
        cases hm
  · intro n hm
    rw [hl] at hm
    rw [hrev]
    rcases List.mem_append.1 hm with hm | hm
    · exact hn.bounded n hm
    · split at hm
      · exact Nat.le_of_eq (List.mem_singleton.1 hm)
      · cases hm
  · rw [hl]
    split
    · next hlands =>
      refine List.pairwise_append.2 ⟨hn.landed_rising, List.pairwise_singleton _ _, ?_⟩
      intro n hm k hk
      rw [List.mem_singleton.1 hk]
      refine Nat.lt_of_le_of_ne (hn.bounded n hm) ?_
      rintro rfl
      exact hnew hlands hm
    · rw [List.append_nil]
      exact hn.landed_rising

theorem numbered_start (project : Project) (settings : Settings) :
    Numbered [] (.start project settings) where
  revision := rfl
  rising := .nil
  requested := fun _ hr => absurd hr List.not_mem_nil
  waiting := fun _ hr => absurd hr List.not_mem_nil
  bounded := fun _ hm => absurd hm List.not_mem_nil
  landed_rising := .nil

section
variable {project : Project} {settings : Settings} {h : List Moment} {b : Board}

theorem Run.numbered (hr : Run (.start project settings) h b) : Numbered h b := by
  induction hr with
  | refl => exact numbered_start project settings
  | deliver _ _ ih =>
    exact ⟨ih.revision, ih.rising, ih.requested, ih.waiting, ih.bounded, ih.landed_rising⟩
  | @step _ b s _ ha ih =>
    cases hs : s.revalidates with
    | true => exact ih.after_request hs
    | false => exact ih.after_other ha hs

end

/-! ## What the newest resolution goes by -/

/-- The newest resolution goes by the names that hold now. -/
inductive UpToDate (root : Path) (b : Board) : Prop where
  /-- It is under way. -/
  | underWay {r : Resolution} :
      r ∈ b.resolutions → r.revision = b.revision → r.overrides = b.overrides → UpToDate root b
  /-- It has come back, and brought the project. -/
  | landed (fs : FileSystem) :
      (∀ r ∈ b.resolutions, r.revision ≠ b.revision) →
        b.project = .resolve fs root b.overrides → UpToDate root b

/-- As long as the names stay, so does what the newest resolution goes by, also when it comes
back. -/
theorem UpToDate.after {root : Path} {h : List Moment} {b : Board} {s : Step}
    (hd : UpToDate root b) (hn : Numbered h b) (hroot : Rooted root b) (ha : b.Admits s)
    (hs : s.revalidates = false) (ho : (b.after s).overrides = b.overrides) :
    UpToDate root (b.after s) := by
  have hrev : (b.after s).revision = b.revision := by
    rw [b.revision_after, hs]
    rfl
  have hres : (b.after s).resolutions = s.unresolved b.resolutions := by
    rw [b.resolutions_after, hs]
    exact List.append_nil _
  cases hl : b.lands s with
  | true =>
    cases s with
    | resolutionLanded r project =>
      obtain ⟨hr, fs, rfl⟩ := ha
      have hrr : r.revision = b.revision := of_decide_eq_true hl
      refine .landed fs ?_ ?_
      · intro q hq
        rw [hres] at hq
        rw [hrev]
        exact Step.ne_of_mem_unresolved hl hq
      · rw [b.project_after, Board.projectAfter, if_pos hrr, ho, hroot.resolutions r hr]
        cases hd with
        | underWay hq hqr hqo => rw [← hqo, hn.eq_of_revision hr hq (hrr.trans hqr.symm)]
        | landed _ hnone => exact absurd hrr (hnone r hr)
    | called | timerFired | scanFinished => cases hl
  | false =>
    cases hd with
    | @underWay q hq hqr hqo =>
      refine .underWay (r := q) ?_ (hqr.trans hrev.symm) (hqo.trans ho.symm)
      rw [hres]
      cases s with
      | resolutionLanded r project =>
        refine List.mem_filter.2 ⟨hq, bne_iff_ne.2 ?_⟩
        intro heq
        exact of_decide_eq_false hl (heq.symm.trans hqr)
      | called | timerFired | scanFinished => exact hq
    | landed fs hnone hproject =>
      refine .landed fs ?_ ?_
      · intro q hq
        rw [hres] at hq
        rw [hrev]
        exact hnone q ((s.unresolved_sublist _).subset hq)
      · rw [Board.project_after_of_not_lands hl, ho]
        exact hproject

/-! ## Courses -/

section
variable {project : Project} {settings : Settings} {h : List Moment} {cs : List Call} {b : Board}

end

end ProblemBoard.Refresh
