import Mathlib.Data.List.Forall2
import ProblemBoard.Path.Order
import ProblemBoard.Proofs.Path.Components

/-!
# Workspaces that are moved

A workspace is moved from one absolute root to another one.  Two paths are one file of it when the
same entries lead to them from the two roots.  All that is asked of such paths is answered alike
before and after the move: their names, their labels, which of them are the same, and which of two
stands in front.
-/

namespace ProblemBoard

namespace Path

/-! ## Relative paths of files -/

/-- A relative path that ends in a name. -/
def IsRelativeFile (q : Path) : Prop := q.isAbsolute = false ∧ q.fileName.isSome = true

instance (q : Path) : Decidable q.IsRelativeFile := inferInstanceAs (Decidable (_ ∧ _))

section
variable {p q : Path}

theorem text_ne_empty (h : p.isAbsolute = true) : p.text ≠ "" := by
  intro hempty
  rw [isAbsolute, hempty] at h
  cases h

/-- The entries of a path are those of its components that have a text. -/
theorem entries_eq_filter (p : Path) :
    p.entries = p.components.filter fun c => c.labelText.isSome := by
  have hlead : p.lead.filter (fun c => c.labelText.isSome) = [] := by
    unfold lead
    split
    · rfl
    · split <;> rfl
  have hentries : p.entries.filter (fun c => c.labelText.isSome) = p.entries := by
    refine List.filter_eq_self.2 fun c hc => ?_
    rw [Component.labelText_of_isEntry (isEntry_of_mem_entries hc)]
    rfl
  rw [components_eq, List.filter_append, hlead, hentries, List.nil_append]

theorem entries_eq_of_same (h : p.same q = true) : p.entries = q.entries := by
  rw [entries_eq_filter, entries_eq_filter, same_iff.1 h]

theorem IsRelativeFile.congr (h : p.IsRelativeFile) (hs : p.same q = true) :
    q.IsRelativeFile := by
  constructor
  · apply Bool.eq_false_iff.2
    intro hq
    exact Bool.eq_false_iff.1 h.1 (isAbsolute_of_same hs hq)
  · rw [← fileName_eq_of_same hs]
    exact h.2

/-- The name at the end of a relative path is its last entry. -/
theorem IsRelativeFile.getLast?_entries (h : q.IsRelativeFile) :
    ∃ s, q.entries.getLast? = some (.name s) := by
  obtain ⟨hrel, hname⟩ := h
  rw [fileName] at hname
  split at hname
  · next s hs =>
    refine ⟨s, ?_⟩
    rw [components_eq, List.getLast?_append] at hs
    cases hlast : q.entries.getLast? with
    | some c => rwa [hlast, Option.some_or] at hs
    | none =>
      rw [hlast, Option.none_or] at hs
      rcases lead_cases hrel with hlead | hlead
      · rw [hlead] at hs
        cases hs
      · rw [hlead] at hs
        cases hs
  · cases hname

/-- A path whose components end in those of a relative path ends in the same name. -/
theorem IsRelativeFile.fileName_eq (h : q.IsRelativeFile) {dir : List Component}
    (hp : p.components = dir ++ q.entries) : ∃ s, p.fileName = some s ∧
      q.entries.getLast? = some (.name s) := by
  obtain ⟨s, hs⟩ := h.getLast?_entries
  refine ⟨s, ?_, hs⟩
  rw [fileName, hp, List.getLast?_append, hs]
  rfl

/-- Paths from the root directory on stand in front of relative ones. -/
theorem before_of_isAbsolute (hp : p.isAbsolute = true) (hq : q.IsRelativeFile) :
    p.before q = true := by
  rw [before_iff, components_eq p, lead_of_isAbsolute hp]
  cases hc : q.components with
  | nil =>
    have hname := hq.2
    rw [fileName, hc] at hname
    cases hname
  | cons c cs =>
    refine List.Lex.rel (.inl ?_)
    cases c with
    | root =>
      have hroot : q.isAbsolute = true := isAbsolute_of_root_mem (hc ▸ .head _)
      rw [hq.1] at hroot
      cases hroot
    | here => exact Nat.zero_lt_succ 0
    | up => exact Nat.zero_lt_succ 1
    | name s => exact Nat.zero_lt_succ 2

/-- What two lists of components start with in common does not count for their order. -/
theorem append_lt_append_iff (dir : List Component) {cs ds : List Component} :
    dir ++ cs < dir ++ ds ↔ cs < ds := by
  induction dir with
  | nil => rfl
  | cons c dir ih =>
    rw [List.cons_append, List.cons_append, List.cons_lt_cons_iff, ih]
    simp [Component.lt_irrefl c]

end

end Path

/-! ## Moves -/

/-- A move of a workspace from one root to another. -/
structure Relocation where
  old : Path
  new : Path
  old_isAbsolute : old.isAbsolute = true
  new_isAbsolute : new.isAbsolute = true

namespace Relocation

open ProblemBoard.Path

/-- Two paths are one file below the two roots. -/
def Moves (m : Relocation) (p p' : Path) : Prop :=
  ∃ q : Path, q.IsRelativeFile ∧ p.same (m.old.join q) = true ∧ p'.same (m.new.join q) = true

/-- Two paths as tools write them are one relative path, or one file below the two roots. -/
inductive MovesKey (m : Relocation) (k k' : Path) : Prop where
  | relative (hk : k.IsRelativeFile) (h : k.same k' = true)
  | rooted (h : m.Moves k k')

section
variable {m : Relocation} {p p' r r' k k' l l' : Path}

/-- The same entries lead to a file from both roots. -/
theorem Moves.components (h : m.Moves p p') :
    ∃ q : Path, q.IsRelativeFile ∧ p.components = m.old.components ++ q.entries ∧
      p'.components = m.new.components ++ q.entries := by
  obtain ⟨q, hq, hp, hp'⟩ := h
  refine ⟨q, hq, ?_, ?_⟩
  · rw [same_iff.1 hp, components_join hq.1 (.inl (text_ne_empty m.old_isAbsolute))]
  · rw [same_iff.1 hp', components_join hq.1 (.inl (text_ne_empty m.new_isAbsolute))]

theorem Moves.isAbsolute (h : m.Moves p p') : p.isAbsolute = true ∧ p'.isAbsolute = true := by
  obtain ⟨q, -, hp, hp'⟩ := h
  exact ⟨isAbsolute_of_same hp (isAbsolute_join m.old_isAbsolute q),
    isAbsolute_of_same hp' (isAbsolute_join m.new_isAbsolute q)⟩

theorem Moves.fileName_eq (h : m.Moves p p') : p.fileName = p'.fileName := by
  obtain ⟨q, hq, hp, hp'⟩ := h.components
  obtain ⟨s, hs, hlast⟩ := hq.fileName_eq hp
  obtain ⟨s', hs', hlast'⟩ := hq.fileName_eq hp'
  rw [hlast] at hlast'
  cases hlast'
  rw [hs, hs']

/-- A file goes by the same label in both places. -/
theorem Moves.label_eq (h : m.Moves p p') : m.old.label p = m.new.label p' := by
  obtain ⟨q, hq, hp, hp'⟩ := h
  rw [label_eq_of_same hp, label_eq_of_same hp',
    label_join hq.1 (.inl (text_ne_empty m.old_isAbsolute)),
    label_join hq.1 (.inl (text_ne_empty m.new_isAbsolute))]

theorem Moves.same_eq (hp : m.Moves p p') (hr : m.Moves r r') : p.same r = p'.same r' := by
  obtain ⟨q, -, hp, hp'⟩ := hp.components
  obtain ⟨q', -, hr, hr'⟩ := hr.components
  rw [Bool.eq_iff_iff, same_iff, same_iff, hp, hp', hr, hr', List.append_right_inj,
    List.append_right_inj]

theorem Moves.before_eq (hp : m.Moves p p') (hr : m.Moves r r') :
    p.before r = p'.before r' := by
  obtain ⟨q, -, hp, hp'⟩ := hp.components
  obtain ⟨q', -, hr, hr'⟩ := hr.components
  rw [Bool.eq_iff_iff, before_iff, before_iff, hp, hp', hr, hr', append_lt_append_iff,
    append_lt_append_iff]

/-- Keys stand in the same order in both places. -/
theorem MovesKey.before_eq (hk : m.MovesKey k k') (hl : m.MovesKey l l') :
    k.before l = k'.before l' := by
  cases hk with
  | relative hk hs =>
    cases hl with
    | relative hl ht => rw [before, before, same_iff.1 hs, same_iff.1 ht]
    | rooted hl =>
      rw [not_before_of_before (before_of_isAbsolute hl.isAbsolute.1 hk),
        not_before_of_before (before_of_isAbsolute hl.isAbsolute.2 (hk.congr hs))]
  | rooted hk =>
    cases hl with
    | relative hl ht =>
      rw [before_of_isAbsolute hk.isAbsolute.1 hl,
        before_of_isAbsolute hk.isAbsolute.2 (hl.congr ht)]
    | rooted hl => exact hk.before_eq hl

/-- Keys as seen from the roots are one file. -/
theorem MovesKey.under (h : m.MovesKey k k') : m.Moves (m.old.under k) (m.new.under k') := by
  cases h with
  | relative hk hs =>
    have hk' := hk.congr hs
    rw [Path.under, Path.under, if_neg (by simp [hk.1]), if_neg (by simp [hk'.1])]
    refine ⟨k, hk, same_refl _, same_iff.2 ?_⟩
    have hnew := text_ne_empty m.new_isAbsolute
    rw [components_join hk'.1 (.inl hnew), components_join hk.1 (.inl hnew),
      entries_eq_of_same hs]
  | rooted h =>
    rw [Path.under, Path.under, if_pos h.isAbsolute.1, if_pos h.isAbsolute.2]
    exact h

end

end Relocation

end ProblemBoard
