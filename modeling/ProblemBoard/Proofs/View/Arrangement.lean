import ProblemBoard.Path.Order
import ProblemBoard.Proofs.View.Groups
import ProblemBoard.Proofs.View.Leaves

/-!
# Arranged problems

What the tree of some problems is in each mode, said without the way it is made.  `RuleGroups`
and `FileGroups` name the groups in their order and give each group the problems with its label
or its file, in the order in which they came; in the mode for both, rule groups stand inside
each file group.  `View.arrange_sorted_partition` says that `View.arrange` makes these trees and
that their leaves are the problems, each as often as it came.
-/

namespace ProblemBoard

namespace Grouping

/-! ## Trees of problems -/

/-- The leaves of problems in the order in which they came. -/
def Leaves (ps : List Problem) (nodes : List Node) : Prop := nodes = ps.map leafOf

/-- The rule groups of problems: one for each label, in the order of the labels, with the
problems that have the label. -/
def RuleGroups (ps : List Problem) (nodes : List Node) : Prop :=
  ∃ labels : List String,
    labels.Pairwise (· < ·) ∧
      (∀ l, l ∈ labels ↔ ∃ p ∈ ps, p.ruleLabel = l) ∧
      nodes = labels.map fun l => .ruleGroup l ((ps.filter (·.ruleLabel = l)).map leafOf)

/-- One file stands in front of another: by its label, and by its path where the labels are the
same. -/
def FileBefore (root f g : Path) : Prop :=
  root.label f < root.label g ∨ root.label f = root.label g ∧ f.before g = true

/-- The file groups of problems: one for each file, spelled as by its first problem, in the order
of labels and paths.  `Inside` says what the children of a group are for the problems of its
file. -/
def FileGroups (root : Path) (Inside : List Problem → List Node → Prop) (ps : List Problem)
    (nodes : List Node) : Prop :=
  ∃ (files : List Path) (children : Path → List Node),
    files.Pairwise (FileBefore root) ∧
      files.Pairwise (fun f g => f.same g = false) ∧
      (∀ p ∈ ps, ∃ f ∈ files, f.same p.file = true) ∧
      (∀ f ∈ files, (ps.find? fun p => f.same p.file).map Problem.file = some f) ∧
      nodes = files.map (fun f => .fileGroup (root.label f) f (children f)) ∧
      ∀ f ∈ files, Inside (ps.filter fun p => f.same p.file) (children f)

/-- The tree of problems in a mode. -/
def Arranged (root : Path) (ps : List Problem) (nodes : List Node) : GroupMode → Prop
  | .file => FileGroups root Leaves ps nodes
  | .rule => RuleGroups ps nodes
  | .both => FileGroups root RuleGroups ps nodes

/-! ## Orders of groups -/

theorem label_equivalence : Equivalence fun a b : String => (a == b) = true where
  refl := fun _ => beq_self_eq_true _
  symm := fun h => beq_iff_eq.2 (beq_iff_eq.1 h).symm
  trans := fun h g => beq_iff_eq.2 ((beq_iff_eq.1 h).trans (beq_iff_eq.1 g))

theorem path_equivalence : Equivalence fun a b : Path => a.same b = true where
  refl := Path.same_refl
  symm := Path.same_symm
  trans := Path.same_trans

theorem labelLe_iff {a b : String} : labelLe a b = true ↔ a ≤ b := by
  rw [labelLe, Bool.not_eq_true', decide_eq_false_iff_not, String.not_lt]

theorem fileLe_iff {a b : String × Path} :
    fileLe a b = true ↔ a.1 < b.1 ∨ a.1 = b.1 ∧ b.2.before a.2 = false := by
  simp [fileLe]

theorem fileLe_trans {a b c : String × Path} (hab : fileLe a b = true) (hbc : fileLe b c = true) :
    fileLe a c = true := by
  rw [fileLe_iff] at *
  rcases hab with hab | ⟨hab, pab⟩ <;> rcases hbc with hbc | ⟨hbc, pbc⟩
  · exact .inl (String.lt_trans hab hbc)
  · exact .inl (hbc ▸ hab)
  · exact .inl (hab ▸ hbc)
  · exact .inr ⟨hab.trans hbc, Path.not_before_trans pab pbc⟩

theorem fileLe_total (a b : String × Path) : (fileLe a b || fileLe b a) = true := by
  rw [Bool.or_eq_true, fileLe_iff, fileLe_iff]
  by_cases hab : a.1 < b.1
  · exact .inl (.inl hab)
  · by_cases hba : b.1 < a.1
    · exact .inr (.inl hba)
    · have he : a.1 = b.1 := String.le_antisymm hba hab
      by_cases hp : b.2.before a.2 = true
      · exact .inr (.inr ⟨he.symm, Path.not_before_of_before hp⟩)
      · exact .inl (.inr ⟨he, Bool.eq_false_iff.2 hp⟩)

/-! ## Rule groups -/

section
variable (ps : List Problem)

/-- The groups of problems by their labels, in the order of the labels. -/
def ruleGroups : List (String × List Problem) :=
  (collect (· == ·) Problem.ruleLabel ps).mergeSort fun a b => labelLe a.1 b.1

theorem groups_ruleGroups : Groups (· == ·) Problem.ruleLabel ps (ruleGroups ps) :=
  (groups_collect label_equivalence Problem.ruleLabel ps).perm label_equivalence
    (List.mergeSort_perm _ _)

theorem ruleGroups_sorted : (ruleGroups ps).Pairwise fun a b => a.1 < b.1 := by
  have hle : (ruleGroups ps).Pairwise fun a b => labelLe a.1 b.1 = true := by
    refine List.pairwise_mergeSort ?_ ?_ _
    · intro a b c hab hbc
      exact labelLe_iff.2 (String.le_trans (labelLe_iff.1 hab) (labelLe_iff.1 hbc))
    · intro a b
      rw [Bool.or_eq_true]
      exact (String.le_total a.1 b.1).imp labelLe_iff.2 labelLe_iff.2
  refine hle.imp₂ ?_ (List.pairwise_map.1 (groups_ruleGroups ps).distinct)
  intro a b hab hne
  apply Decidable.byContradiction
  intro hlt
  have he : a.1 = b.1 := String.le_antisymm (labelLe_iff.1 hab) hlt
  simp [he] at hne

theorem byRule_ruleGroups : RuleGroups ps (byRule ps) := by
  have hg := groups_ruleGroups ps
  refine ⟨(ruleGroups ps).map Prod.fst, List.pairwise_map.2 (ruleGroups_sorted ps), ?_, ?_⟩
  · intro l
    constructor
    · intro hl
      obtain ⟨g, hgs, rfl⟩ := List.mem_map.1 hl
      exact hg.exists_problem hgs
    · rintro ⟨p, hp, rfl⟩
      obtain ⟨g, hgs, hk⟩ := hg.exists_group hp
      exact List.mem_map.2 ⟨g, hgs, beq_iff_eq.1 hk⟩
  · show (ruleGroups ps).map _ = _
    rw [List.map_map]
    refine List.map_congr_left ?_
    intro g hgs
    show Node.ruleGroup g.1 _ = .ruleGroup g.1 _
    rw [hg.members g hgs]
    congr 2
    refine List.filter_congr ?_
    intro p _
    rw [Bool.eq_iff_iff, beq_iff_eq, decide_eq_true_eq]
    exact eq_comm

theorem leavesOf_byRule : (leavesOf (byRule ps)).Perm ps := by
  refine (leavesOf_map_perm _ Prod.snd (ruleGroups ps) ?_).trans (groups_ruleGroups ps).complete
  intro g
  show (leavesOf (g.2.map leafOf)).Perm g.2
  rw [leavesOf_map_leafOf]

end

/-! ## File groups -/

/-- Whether two labelled paths are the same file. -/
def sameFile (a b : String × Path) : Bool := a.2.same b.2

theorem file_equivalence : Equivalence fun a b => sameFile a b = true where
  refl := fun a => Path.same_refl a.2
  symm := Path.same_symm
  trans := Path.same_trans

/-- The file of a problem and what it goes by. -/
def fileKey (root : Path) (p : Problem) : String × Path := (root.label p.file, p.file)

theorem Groups.labelled {ps : List Problem} {gs : List (Path × List Problem)}
    (h : Groups Path.same Problem.file ps gs) (root : Path) :
    Groups sameFile (fileKey root) ps (gs.map fun g => ((root.label g.1, g.1), g.2)) where
  distinct := by
    have hd := List.pairwise_map.1 h.distinct
    rw [List.map_map]
    exact List.pairwise_map.2 hd
  members := by
    intro g hg
    obtain ⟨f, hf, rfl⟩ := List.mem_map.1 hg
    exact h.members f hf
  first := by
    intro g hg
    obtain ⟨f, hf, rfl⟩ := List.mem_map.1 hg
    obtain ⟨p, hp, hk⟩ := Option.map_eq_some_iff.1 (h.first f hf)
    exact Option.map_eq_some_iff.2 ⟨p, hp, by rw [fileKey, hk]⟩
  complete := by
    rw [List.flatMap_map]
    exact h.complete

section
variable (root : Path) (ps : List Problem)

/-- The groups of problems by their files, in the order of labels and paths. -/
def fileGroups : List ((String × Path) × List Problem) :=
  ((collect Path.same Problem.file ps).map fun g => ((root.label g.1, g.1), g.2)).mergeSort
    fun a b => fileLe a.1 b.1

theorem groups_fileGroups : Groups sameFile (fileKey root) ps (fileGroups root ps) :=
  ((groups_collect path_equivalence Problem.file ps).labelled root).perm file_equivalence
    (List.mergeSort_perm _ _)

theorem fileGroups_sorted : (fileGroups root ps).Pairwise fun a b => fileLe a.1 b.1 = true := by
  unfold fileGroups
  refine List.pairwise_mergeSort ?_ ?_ _
  · intro a b c hab hbc
    exact fileLe_trans hab hbc
  · intro a b
    exact fileLe_total a.1 b.1

/-- A file group goes by the label of its file. -/
theorem label_of_mem_fileGroups {g : (String × Path) × List Problem}
    (hg : g ∈ fileGroups root ps) : g.1.1 = root.label g.1.2 := by
  obtain ⟨p, -, hk⟩ := (groups_fileGroups root ps).exists_problem hg
  rw [← hk]
  rfl

/-- Different files in their order stand strictly one in front of the other. -/
theorem fileBefore_of_fileLe {a b : String × Path} (ha : a.1 = root.label a.2)
    (hb : b.1 = root.label b.2) (hle : fileLe a b = true) (hne : sameFile a b = false) :
    FileBefore root a.2 b.2 := by
  rcases fileLe_iff.1 hle with hlt | ⟨he, hp⟩
  · exact .inl (ha ▸ hb ▸ hlt)
  · exact .inr ⟨ha ▸ hb ▸ he, Path.before_of_not_before hne hp⟩

theorem byFile_fileGroups (inside : List Problem → List Node)
    (Inside : List Problem → List Node → Prop) (h : ∀ qs, Inside qs (inside qs)) :
    FileGroups root Inside ps (byFile root inside ps) := by
  have hg := groups_fileGroups root ps
  have hne := List.pairwise_map.1 hg.distinct
  refine ⟨(fileGroups root ps).map fun g => g.1.2,
    fun f => inside (ps.filter fun p => f.same p.file), ?_, ?_, ?_, ?_, ?_, ?_⟩
  · refine List.pairwise_map.2 (((fileGroups_sorted root ps).and hne).imp_of_mem ?_)
    intro a b ha hb hab
    exact fileBefore_of_fileLe root (label_of_mem_fileGroups root ps ha)
      (label_of_mem_fileGroups root ps hb) hab.1 hab.2
  · exact List.pairwise_map.2 hne
  · intro p hp
    obtain ⟨g, hgs, hk⟩ := hg.exists_group hp
    exact ⟨g.1.2, List.mem_map_of_mem hgs, hk⟩
  · intro f hf
    obtain ⟨g, hgs, rfl⟩ := List.mem_map.1 hf
    have hfirst := hg.first g hgs
    rw [hg.members g hgs, List.head?_filter] at hfirst
    obtain ⟨p, hp, hk⟩ := Option.map_eq_some_iff.1 hfirst
    exact Option.map_eq_some_iff.2 ⟨p, hp, congrArg Prod.snd hk⟩
  · show (fileGroups root ps).map _ = _
    rw [List.map_map]
    refine List.map_congr_left ?_
    intro g hgs
    show Node.fileGroup g.1.1 g.1.2 (inside g.2) = .fileGroup (root.label g.1.2) g.1.2 _
    rw [hg.members g hgs, label_of_mem_fileGroups root ps hgs]
    rfl
  · intro f _
    exact h _

theorem leavesOf_byFile (inside : List Problem → List Node)
    (h : ∀ qs, (leavesOf (inside qs)).Perm qs) : (leavesOf (byFile root inside ps)).Perm ps := by
  refine (leavesOf_map_perm _ Prod.snd (fileGroups root ps) ?_).trans
    (groups_fileGroups root ps).complete
  intro g
  show (leavesOf (inside g.2)).Perm g.2
  exact h g.2

end

end Grouping

/-! ## Views -/

namespace View

open Grouping

/-- The leaves of an arranged tree are the problems, each as often as it came. -/
theorem flat_arrange_perm (ps : List Problem) (mode : GroupMode) (root : Path) :
    (arrange ps mode root).flat.Perm ps := by
  cases mode with
  | file =>
    refine leavesOf_byFile root ps _ ?_
    intro qs
    rw [leavesOf_map_leafOf]
  | rule => exact leavesOf_byRule ps
  | both => exact leavesOf_byFile root ps _ leavesOf_byRule

theorem arranged_arrange (ps : List Problem) (mode : GroupMode) (root : Path) :
    Arranged root ps (arrange ps mode root).roots mode := by
  cases mode with
  | file => exact byFile_fileGroups root ps _ Leaves fun _ => rfl
  | rule => exact byRule_ruleGroups ps
  | both => exact byFile_fileGroups root ps _ RuleGroups byRule_ruleGroups

/-- Regrouping does not change the number of errors. -/
theorem errorCount_arrange (ps : List Problem) (mode : GroupMode) (root : Path) :
    (arrange ps mode root).errorCount = ps.countP fun p => p.severity.isError :=
  (flat_arrange_perm ps mode root).countP_eq _

/-- In every mode the flat list is that of the leaves of the tree in pre-order, and it holds the
problems, each as often as they do; so the numbers of leaves, of errors and of each severity are
theirs.  The tree has one group for each file or label, or for each label inside each file, in
strictly ascending order; a group holds the problems of its file or label in the order in which
they came. -/
theorem arrange_sorted_partition (ps : List Problem) (mode : GroupMode) (root : Path) :
    (arrange ps mode root).mode = mode ∧
      (arrange ps mode root).flat =
        (preorderOf (arrange ps mode root).roots).filterMap Node.problem? ∧
      (arrange ps mode root).flat.Perm ps ∧
      (arrange ps mode root).leafCount = ps.length ∧
      (arrange ps mode root).tally.errors = (ps.countP fun p => p.severity = .error) ∧
      (arrange ps mode root).tally.warnings = (ps.countP fun p => p.severity = .warning) ∧
      (arrange ps mode root).tally.infos = (ps.countP fun p => p.severity = .info) ∧
      (arrange ps mode root).tally.hints = (ps.countP fun p => p.severity = .hint) ∧
      (arrange ps mode root).errorCount = (ps.countP fun p => p.severity.isError) ∧
      Arranged root ps (arrange ps mode root).roots mode := by
  have hp := flat_arrange_perm ps mode root
  have hcount := Tally.count_of_perm hp
  refine ⟨rfl, leavesOf_eq_preorder _, hp, ?_, hcount .error, hcount .warning, hcount .info,
    hcount .hint, errorCount_arrange ps mode root, arranged_arrange ps mode root⟩
  calc (arrange ps mode root).leafCount
      = (arrange ps mode root).flat.length := leafCountOf_eq_length _
    _ = ps.length := hp.length_eq

end View

end ProblemBoard
