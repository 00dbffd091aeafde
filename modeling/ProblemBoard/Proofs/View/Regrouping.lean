import Mathlib.Data.List.Forall2
import ProblemBoard.Proofs.Path.Components
import ProblemBoard.Proofs.View.Arrangement

/-!
# Problems in their displayed order

The leaves of an arranged tree, arranged once more, make the same tree.  Problems that come
group by group are collected into these groups again, `Grouping.collect_blocks`, and groups in
their order stay where they are.  Only the spelling of a path can change: a file group has the
path of the problem of its file that came first, and inside a file the rule groups put another
problem first.  The path that a group gets is then that of its first leaf, `Node.respelled`, and
from there on nothing changes any more.
-/

namespace ProblemBoard

/-! ## Spellings of paths -/

namespace Node

/-- A node is another one, but that a file group may spell its path differently. -/
inductive Respelled : Node → Node → Prop where
  | same (n : Node) : Respelled n n
  | fileGroup {p q : Path} (label : String) (children : List Node) (h : p.same q = true) :
      Respelled (.fileGroup label p children) (.fileGroup label q children)

/-- A file group with the path of its first leaf. -/
def respelled : Node → Node
  | .fileGroup label path children =>
      .fileGroup label (((leavesOf children).head?.map Problem.file).getD path) children
  | n => n

@[simp] theorem respelled_leaves (n : Node) : n.respelled.leaves = n.leaves := by
  cases n <;> rfl

end Node

theorem leavesOf_map_respelled (ns : List Node) :
    leavesOf (ns.map Node.respelled) = leavesOf ns := by
  induction ns with
  | nil => rfl
  | cons n ns ih => rw [List.map_cons, leavesOf, leavesOf, Node.respelled_leaves, ih]

namespace Grouping

variable {κ : Type} {same : κ → κ → Bool} {key : Problem → κ} {ps : List Problem}
variable {gs : List (κ × List Problem)}

/-! ## Problems that come group by group -/

/-- Groups that can be told apart in the list of their members. -/
structure Blocks (same : κ → κ → Bool) (key : Problem → κ) (gs : List (κ × List Problem)) :
    Prop where
  /-- No key has two groups. -/
  distinct : gs.Pairwise fun g g' => same g.1 g'.1 = false
  /-- The members of a group have its key. -/
  members : ∀ g ∈ gs, ∀ p ∈ g.2, same g.1 (key p) = true
  /-- The key of a group is that of its first member. -/
  first : ∀ g ∈ gs, g.2.head?.map key = some g.1

theorem Groups.blocks (h : Groups same key ps gs) : Blocks same key gs where
  distinct := List.pairwise_map.1 h.distinct
  members := by
    intro g hg p hp
    rw [h.members g hg] at hp
    exact (List.mem_filter.1 hp).2
  first := h.first

/-- Problems with other keys leave a group in front as it is. -/
theorem foldl_addMember_cons {g : κ × List Problem} (h : ∀ p ∈ ps, same g.1 (key p) = false) :
    ∀ gs, ps.foldl (fun groups p => addMember same (key p) p groups) (g :: gs) =
      g :: ps.foldl (fun groups p => addMember same (key p) p groups) gs := by
  induction ps with
  | nil => exact fun _ => rfl
  | cons p ps ih =>
    intro gs
    rw [List.foldl_cons, List.foldl_cons, addMember,
      if_neg (Bool.eq_false_iff.1 (h p (.head _))), ih fun q hq => h q (.tail _ hq)]

/-- Problems with the key of a group join it. -/
theorem foldl_addMember_block {k : κ} (h : ∀ p ∈ ps, same k (key p) = true) :
    ∀ ms, ps.foldl (fun groups p => addMember same (key p) p groups) [(k, ms)] =
      [(k, ms ++ ps)] := by
  induction ps with
  | nil => exact fun ms => by rw [List.append_nil, List.foldl_nil]
  | cons p ps ih =>
    intro ms
    rw [List.foldl_cons, addMember, if_pos (h p (.head _)), ih fun q hq => h q (.tail _ hq),
      List.append_assoc, List.singleton_append]

/-- The members of one group are one group. -/
theorem collect_block {g : κ × List Problem} (hmembers : ∀ p ∈ g.2, same g.1 (key p) = true)
    (hfirst : g.2.head?.map key = some g.1) : collect same key g.2 = [g] := by
  obtain ⟨k, ms⟩ := g
  cases ms with
  | nil => cases hfirst
  | cons p ms =>
    obtain rfl : key p = k := Option.some.inj hfirst
    exact foldl_addMember_block (fun q hq => hmembers q (.tail _ hq)) [p]

/-- Problems that come group by group are collected into these groups. -/
theorem collect_blocks (hs : Equivalence fun a b => same a b = true) (h : Blocks same key gs) :
    collect same key (gs.flatMap Prod.snd) = gs := by
  induction gs with
  | nil => rfl
  | cons g gs ih =>
    obtain ⟨hdistinct, hmembers, hfirst⟩ := h
    rw [List.pairwise_cons] at hdistinct
    have hrest : collect same key (gs.flatMap Prod.snd) = gs :=
      ih ⟨hdistinct.2, fun g' hg' => hmembers g' (.tail _ hg'),
        fun g' hg' => hfirst g' (.tail _ hg')⟩
    have hother : ∀ p ∈ gs.flatMap Prod.snd, same g.1 (key p) = false := by
      intro p hp
      obtain ⟨g', hg', hpg⟩ := List.mem_flatMap.1 hp
      apply Bool.eq_false_iff.2
      intro hk
      have hsame : same g.1 g'.1 = true :=
        hs.trans hk (hs.symm (hmembers g' (.tail _ hg') p hpg))
      exact Bool.eq_false_iff.1 (hdistinct.1 g' hg') hsame
    have hblock := collect_block (hmembers g (.head _)) (hfirst g (.head _))
    unfold collect at hrest hblock ⊢
    rw [List.flatMap_cons, List.foldl_append, hblock, foldl_addMember_cons hother, hrest]

/-! ## Rule groups -/

theorem leavesOf_byRule_eq (ps : List Problem) :
    leavesOf (byRule ps) = (ruleGroups ps).flatMap Prod.snd := by
  show leavesOf ((ruleGroups ps).map _) = _
  rw [leavesOf_map]
  refine List.flatMap_congr fun g _ => ?_
  exact leavesOf_map_leafOf g.2

/-- Rule groups stay as they are when their leaves are grouped again. -/
theorem byRule_leaves (ps : List Problem) : byRule (leavesOf (byRule ps)) = byRule ps := by
  have hcollect : collect (· == ·) Problem.ruleLabel ((ruleGroups ps).flatMap Prod.snd) =
      ruleGroups ps := collect_blocks label_equivalence (groups_ruleGroups ps).blocks
  have hsorted : (ruleGroups ps).Pairwise fun a b => labelLe a.1 b.1 = true :=
    (ruleGroups_sorted ps).imp fun hlt => labelLe_iff.2 (Std.le_of_lt hlt)
  have hgroups : ruleGroups ((ruleGroups ps).flatMap Prod.snd) = ruleGroups ps := by
    rw [ruleGroups, hcollect]
    exact List.mergeSort_of_pairwise hsorted
  rw [leavesOf_byRule_eq]
  show (ruleGroups _).map _ = (ruleGroups ps).map _
  rw [hgroups]

/-- Rule groups have no paths. -/
theorem map_respelled_byRule (ps : List Problem) :
    (byRule ps).map Node.respelled = byRule ps := by
  show ((ruleGroups ps).map _).map Node.respelled = (ruleGroups ps).map _
  rw [List.map_map]
  rfl

/-! ## Members in another order -/

/-- A group with its members in another order, under the key of the one that is then first. -/
def reorder (key : Problem → κ) (order : List Problem → List Problem) (g : κ × List Problem) :
    κ × List Problem :=
  (((order g.2).head?.map key).getD g.1, order g.2)

section
variable {order : List Problem → List Problem} (hperm : ∀ qs, (order qs).Perm qs)
include hperm

theorem Blocks.exists_first (h : Blocks same key gs) {g : κ × List Problem} (hg : g ∈ gs) :
    ∃ p ∈ g.2, (order g.2).head? = some p ∧ reorder key order g = (key p, order g.2) := by
  obtain ⟨q, hq, -⟩ := Option.map_eq_some_iff.1 (h.first g hg)
  have hmem : q ∈ order g.2 := (hperm g.2).mem_iff.2 (List.mem_of_head? hq)
  cases ho : order g.2 with
  | nil =>
    rw [ho] at hmem
    cases hmem
  | cons p rest =>
    have hp : p ∈ order g.2 := ho ▸ .head _
    exact ⟨p, (hperm g.2).mem_iff.1 hp, rfl, by rw [reorder, ho]; rfl⟩

theorem Blocks.same_reorder (h : Blocks same key gs) {g : κ × List Problem} (hg : g ∈ gs) :
    same g.1 (reorder key order g).1 = true := by
  obtain ⟨p, hp, -, he⟩ := h.exists_first hperm hg
  rw [he]
  exact h.members g hg p hp

theorem Blocks.reorder (hs : Equivalence fun a b => same a b = true) (h : Blocks same key gs) :
    Blocks same key (gs.map (reorder key order)) where
  distinct := by
    refine List.pairwise_map.2 (h.distinct.imp_of_mem ?_)
    intro a b ha hb hab
    apply Bool.eq_false_iff.2
    intro hk
    have hsame : same a.1 b.1 = true :=
      hs.trans (h.same_reorder hperm ha) (hs.trans hk (hs.symm (h.same_reorder hperm hb)))
    exact Bool.eq_false_iff.1 hab hsame
  members := by
    intro g' hg' p hp
    obtain ⟨g, hg, rfl⟩ := List.mem_map.1 hg'
    have hmem : p ∈ g.2 := (hperm g.2).mem_iff.1 hp
    exact hs.trans (hs.symm (h.same_reorder hperm hg)) (h.members g hg p hmem)
  first := by
    intro g' hg'
    obtain ⟨g, hg, rfl⟩ := List.mem_map.1 hg'
    obtain ⟨p, -, hfirst, he⟩ := h.exists_first hperm hg
    rw [he, hfirst]
    rfl

end

/-! ## File groups -/

theorem map_addMember_file (root : Path) (p : Problem) (gs : List (Path × List Problem)) :
    (addMember Path.same p.file p gs).map (fun g => ((root.label g.1, g.1), g.2)) =
      addMember sameFile (fileKey root p) p
        (gs.map fun g => ((root.label g.1, g.1), g.2)) := by
  induction gs with
  | nil => rfl
  | cons g gs ih =>
    have hsame : sameFile (root.label g.1, g.1) (fileKey root p) = g.1.same p.file := rfl
    rw [List.map_cons, addMember, addMember, hsame, ← ih]
    cases g.1.same p.file with
    | true => rfl
    | false => rfl

/-- Collecting by files and then labelling the groups is collecting by labelled files. -/
theorem map_collect_file (root : Path) (ps : List Problem) :
    ((collect Path.same Problem.file ps).map fun g => ((root.label g.1, g.1), g.2)) =
      collect sameFile (fileKey root) ps := by
  have hrun : ∀ gs : List (Path × List Problem),
      (ps.foldl (fun groups p => addMember Path.same p.file p groups) gs).map
          (fun g => ((root.label g.1, g.1), g.2)) =
        ps.foldl (fun groups p => addMember sameFile (fileKey root p) p groups)
          (gs.map fun g => ((root.label g.1, g.1), g.2)) := by
    induction ps with
    | nil => exact fun _ => rfl
    | cons p ps ih =>
      intro gs
      rw [List.foldl_cons, List.foldl_cons, ih, map_addMember_file]
  exact hrun []

/-- The order of labelled files does not depend on their spelling. -/
theorem fileLe_fileKey {root : Path} {p p' q q' : Problem} (hp : p.file.same p'.file = true)
    (hq : q.file.same q'.file = true) :
    fileLe (fileKey root p) (fileKey root q) = fileLe (fileKey root p') (fileKey root q') := by
  unfold fileLe fileKey
  rw [Path.label_eq_of_same hp, Path.label_eq_of_same hq, Path.before_eq_of_same hq hp]

section
variable (root : Path) (ps : List Problem) {inside : List Problem → List Node}

theorem leavesOf_byFile_eq (inside : List Problem → List Node) :
    leavesOf (byFile root inside ps) =
      (fileGroups root ps).flatMap fun g => leavesOf (inside g.2) := by
  show leavesOf ((fileGroups root ps).map _) = _
  exact leavesOf_map _ _

variable (hperm : ∀ qs, (leavesOf (inside qs)).Perm qs)
include hperm

/-- The leaves of file groups are grouped by the same files, in the same order: another first member
spells the key differently, which neither label nor order can tell. -/
theorem fileGroups_leaves : fileGroups root (leavesOf (byFile root inside ps)) =
    (fileGroups root ps).map (reorder (fileKey root) fun qs => leavesOf (inside qs)) := by
  have hblocks := (groups_fileGroups root ps).blocks
  have hcollect := collect_blocks file_equivalence (hblocks.reorder hperm file_equivalence)
  rw [List.flatMap_map] at hcollect
  rw [fileGroups, map_collect_file, leavesOf_byFile_eq]
  refine (congrArg (List.mergeSort · _) hcollect).trans ?_
  refine List.mergeSort_of_pairwise (List.pairwise_map.2 ?_)
  refine (fileGroups_sorted root ps).imp_of_mem ?_
  intro a b ha hb hab
  obtain ⟨p, hp, -, hpe⟩ := hblocks.exists_first hperm ha
  obtain ⟨q, hq, -, hqe⟩ := hblocks.exists_first hperm hb
  obtain ⟨p', -, hp'⟩ := (groups_fileGroups root ps).exists_problem ha
  obtain ⟨q', -, hq'⟩ := (groups_fileGroups root ps).exists_problem hb
  have hpp := hblocks.members a ha p hp
  have hqq := hblocks.members b hb q hq
  rw [← hp'] at hpp
  rw [← hq'] at hqq
  rw [hpe, hqe, ← fileLe_fileKey hpp hqq, hp', hq']
  exact hab

/-- The path of the first leaf of a file group is that of the group, but for its spelling. -/
theorem respelled_of_mem_byFile {n : Node} (hn : n ∈ byFile root inside ps) :
    n.respelled.Respelled n := by
  have hblocks := (groups_fileGroups root ps).blocks
  obtain ⟨g, hg, rfl⟩ : ∃ g ∈ fileGroups root ps,
      Node.fileGroup g.1.1 g.1.2 (inside g.2) = n := List.mem_map.1 hn
  obtain ⟨p, hp, hfirst, -⟩ := hblocks.exists_first hperm hg
  have hsame : p.file.same g.1.2 = true := Path.same_symm (hblocks.members g hg p hp)
  rw [Node.respelled, hfirst]
  exact .fileGroup g.1.1 (inside g.2) hsame

/-- File groups get the paths of their first leaves when their leaves are grouped again. -/
theorem byFile_leaves (hfixed : ∀ qs, inside (leavesOf (inside qs)) = inside qs) :
    byFile root inside (leavesOf (byFile root inside ps)) =
      (byFile root inside ps).map Node.respelled := by
  have hblocks := (groups_fileGroups root ps).blocks
  show (fileGroups root _).map _ = ((fileGroups root ps).map _).map _
  rw [fileGroups_leaves root ps hperm, List.map_map, List.map_map]
  refine List.map_congr_left fun g hg => ?_
  obtain ⟨p, hp, hfirst, he⟩ := hblocks.exists_first hperm hg
  have hlabel : root.label p.file = g.1.1 := by
    rw [label_of_mem_fileGroups root ps hg]
    exact (Path.label_eq_of_same (hblocks.members g hg p hp)).symm
  show Node.fileGroup (reorder _ _ g).1.1 (reorder _ _ g).1.2 (inside (reorder _ _ g).2) =
    Node.respelled (.fileGroup g.1.1 g.1.2 (inside g.2))
  rw [he, Node.respelled, hfirst, hfixed, fileKey, hlabel]
  rfl

end

end Grouping

/-! ## Views -/

namespace View

open Grouping

/-- Arranging the leaves of a tree gives its file groups the paths of their first leaves, and
changes nothing else. -/
theorem roots_arrange_flat (ps : List Problem) (mode : GroupMode) (root : Path) :
    (arrange (arrange ps mode root).flat mode root).roots =
      (arrange ps mode root).roots.map Node.respelled := by
  cases mode with
  | file =>
    refine byFile_leaves root ps (fun qs => .of_eq (leavesOf_map_leafOf qs)) fun qs => ?_
    rw [leavesOf_map_leafOf]
  | rule => exact (byRule_leaves ps).trans (map_respelled_byRule ps).symm
  | both => exact byFile_leaves root ps leavesOf_byRule byRule_leaves

theorem respelled_of_mem_roots {ps : List Problem} {mode : GroupMode} {root : Path} {n : Node}
    (hn : n ∈ (arrange ps mode root).roots) : n.respelled.Respelled n := by
  cases mode with
  | file => exact respelled_of_mem_byFile root ps (fun qs => .of_eq (leavesOf_map_leafOf qs)) hn
  | rule =>
    obtain ⟨g, -, rfl⟩ : ∃ g ∈ ruleGroups ps, Node.ruleGroup g.1 (g.2.map leafOf) = n :=
      List.mem_map.1 hn
    exact .same _
  | both => exact respelled_of_mem_byFile root ps leavesOf_byRule hn

/-- The leaves of a tree, arranged in its mode again, make the same tree: the mode and the leaves
are those of the first tree, and so are the nodes, but that the path of a file group may be
spelled differently.  Arranged once more, they make the very tree that they made then. -/
theorem regrouped_unchanged (ps : List Problem) (mode : GroupMode) (root : Path) :
    (arrange (arrange ps mode root).flat mode root).mode = (arrange ps mode root).mode ∧
      (arrange (arrange ps mode root).flat mode root).flat = (arrange ps mode root).flat ∧
      List.Forall₂ Node.Respelled (arrange (arrange ps mode root).flat mode root).roots
        (arrange ps mode root).roots ∧
      arrange (arrange (arrange ps mode root).flat mode root).flat mode root =
        arrange (arrange ps mode root).flat mode root := by
  have hroots := roots_arrange_flat ps mode root
  have hflat : (arrange (arrange ps mode root).flat mode root).flat =
      (arrange ps mode root).flat :=
    (congrArg leavesOf hroots).trans (leavesOf_map_respelled _)
  refine ⟨rfl, hflat, ?_, by rw [hflat]⟩
  rw [hroots, List.forall₂_map_left_iff, List.forall₂_same]
  exact fun n hn => respelled_of_mem_roots hn

end View

end ProblemBoard
