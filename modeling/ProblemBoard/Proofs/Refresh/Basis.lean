import ProblemBoard.Proofs.Refresh.Work

/-!
# What a board goes by

The *basis* of a board is what its scans go by, and what is being found out about the
workspace: the project, the named configurations, the filters and the resolutions under way.
`Board.basis_after` says once what a step does to it.  A resolution keeps the workspace root
it was given, so along a run everything is about one workspace.
-/

namespace ProblemBoard.Refresh

/-- What the scans of a board go by, and what is being found out. -/
structure Basis where
  project : Project
  overrides : Overrides
  filters : Filters
  resolutions : List Resolution
  revision : Nat

/-- What the scans of a board go by, and what is being found out. -/
def Board.basis (b : Board) : Basis :=
  ⟨b.project, b.overrides, b.filters, b.resolutions, b.revision⟩

/-! ## Parts of steps -/

@[simp] theorem Board.basis_apply (b : Board) (a : Action) : (b.apply a).basis = b.basis := by
  cases a <;> rfl

@[simp] theorem Board.basis_transition (b : Board) (f : Machine → Machine × Action) :
    (b.transition f).basis = b.basis :=
  Board.basis_apply _ _

@[simp] theorem Board.basis_scanFinished (b : Board) (id : Nat)
    (result : Except ScanError ScanResult) : (b.scanFinished id result).basis = b.basis := by
  obtain ⟨_, _, _, _, _, _, _, he⟩ := b.scanFinished_frame id result
  rw [he, Board.basis_apply]
  rfl

@[simp] theorem Board.basis_setMode (b : Board) (mode : GroupMode) :
    (b.setMode mode).basis = b.basis := by
  obtain ⟨_, _, _, he⟩ := b.setMode_frame mode
  rw [he]
  rfl

@[simp] theorem Board.basis_navigate (b : Board) (move : Cursor.Move) :
    (b.navigate move).1.basis = b.basis := by
  obtain ⟨_, _, he⟩ := b.navigate_frame move
  rw [he]
  rfl

/-! ## Whole steps -/

/-- The basis after a step. -/
def Board.basisAfter (b : Board) : Step → Basis
  | .called (.updateSettings s) =>
      { b.basis with filters := .ofSettings s, overrides := .ofSettings s }
  | .called .revalidate => b.revalidate.basis
  | .called (.refreshThen changed) => if changed then b.revalidate.basis else b.basis
  | .resolutionLanded r project =>
      { b.basis with
        resolutions := b.resolutions.filter (·.revision != r.revision)
        project := b.projectAfter (.resolutionLanded r project) }
  | _ => b.basis

/-- What a step does to the basis. -/
theorem Board.basis_after (b : Board) (s : Step) : (b.after s).basis = b.basisAfter s := by
  cases s with
  | called c =>
    cases c with
    | requestRefresh | requestImmediate | setPaused | togglePause =>
      exact b.basis_transition _
    | setMode mode | regroupThen mode => exact b.basis_setMode mode
    | refreshThen changed =>
      cases changed with
      | true => rfl
      | false => exact b.basis_transition _
    | navigate move => exact b.basis_navigate move
    | isPaused | updateSettings | revalidate | project | shutdown => rfl
  | timerFired g => exact Board.basis_apply _ _
  | scanFinished id result => exact b.basis_scanFinished id result
  | resolutionLanded r project =>
    show (b.resolutionLanded r project).basis = _
    by_cases h : r.revision = b.revision
    · rw [Board.resolutionLanded_of_eq h, Board.requestImmediate, Board.basis_transition]
      simp [Board.basis, Board.basisAfter, Board.projectAfter, h]
    · rw [Board.resolutionLanded_of_ne h]
      simp [Board.basis, Board.basisAfter, Board.projectAfter, h]

theorem Board.project_after (b : Board) (s : Step) : (b.after s).project = b.projectAfter s := by
  have h : (b.after s).project = (b.basisAfter s).project :=
    congrArg Basis.project (b.basis_after s)
  rw [h]
  cases s with
  | called c =>
    cases c with
    | refreshThen changed => cases changed <;> rfl
    | _ => rfl
  | _ => rfl

/-! ## One workspace -/

/-- Everything on a board is about one workspace. -/
structure Rooted (root : Path) (b : Board) : Prop where
  /-- The project is that workspace. -/
  project : b.project.root = root
  /-- So is the project of every running scan. -/
  scans : ∀ s ∈ b.scans, s.project.root = root
  /-- And that of every resolution under way. -/
  resolutions : ∀ r ∈ b.resolutions, r.root = root

theorem rooted_start (project : Project) (settings : Settings) :
    Rooted project.root (.start project settings) :=
  ⟨rfl, fun _ hs => absurd hs List.not_mem_nil, fun _ hr => absurd hr List.not_mem_nil⟩

theorem Project.resolve_root (fs : FileSystem) (root : Path) (o : Overrides) :
    (Project.resolve fs root o).root = root := by
  unfold Project.resolve
  rfl

theorem Rooted.projectAfter {root : Path} {b : Board} {s : Step} (h : Rooted root b)
    (ha : b.Admits s) : (b.projectAfter s).root = root := by
  cases s with
  | resolutionLanded r project =>
    obtain ⟨hr, fs, rfl⟩ := ha
    show (if r.revision = b.revision then _ else b.project).root = root
    split
    · rw [Project.resolve_root]
      exact h.resolutions r hr
    · exact h.project
  | _ => exact h.project

theorem Rooted.revalidate {root : Path} {b : Board} (h : Rooted root b) :
    ∀ r ∈ b.revalidate.resolutions, r.root = root := by
  intro r hr
  rcases List.mem_append.1 hr with hr | hr
  · exact h.resolutions r hr
  · rw [List.mem_singleton.1 hr]
    exact h.project

theorem Rooted.after {root : Path} {b : Board} {s : Step} (h : Rooted root b)
    (ha : b.Admits s) : Rooted root (b.after s) := by
  refine ⟨?_, ?_, ?_⟩
  · rw [b.project_after]
    exact h.projectAfter ha
  · intro t ht
    rw [b.scans_after ha] at ht
    rcases List.mem_append.1 ht with ht | ht
    · exact h.scans t (Step.mem_left ht)
    · split at ht
      · rw [List.mem_singleton.1 ht]
        exact h.projectAfter ha
      · cases ht
  · have hb : (b.after s).resolutions = (b.basisAfter s).resolutions :=
      congrArg Basis.resolutions (b.basis_after s)
    intro r hr
    rw [hb] at hr
    unfold Board.basisAfter at hr
    split at hr
    · exact h.resolutions r hr
    · exact h.revalidate r hr
    · split at hr
      · exact h.revalidate r hr
      · exact h.resolutions r hr
    · exact h.resolutions r (List.mem_filter.1 hr).1
    · exact h.resolutions r hr

theorem Run.rooted {project : Project} {settings : Settings} {h : List Moment} {b : Board}
    (hr : Run (.start project settings) h b) : Rooted project.root b := by
  induction hr with
  | refl => exact rooted_start project settings
  | step _ _ ha ih => exact ih.after ha
  | deliver _ _ ih => exact ⟨ih.project, ih.scans, ih.resolutions⟩

end ProblemBoard.Refresh
