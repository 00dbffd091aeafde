import Mathlib.Data.List.Perm.Basic
import ProblemBoard.View.Grouping

/-!
# Leaves of a tree

The pre-order of a tree is each node in front of the nodes below it, from left to right.  The
leaves from left to right are the problems met in pre-order, and there are as many of them as
`leafCount` says.  Groups that are made one after another have the leaves of their members one
after another.
-/

namespace ProblemBoard

/-! ## Pre-order -/

mutual

/-- A node, and behind it the nodes below it. -/
def Node.preorder : Node → List Node
  | .fileGroup label path children => .fileGroup label path children :: preorderOf children
  | .ruleGroup label children => .ruleGroup label children :: preorderOf children
  | .leaf p address => [.leaf p address]

/-- Nodes from left to right, each in front of the nodes below it. -/
def preorderOf : List Node → List Node
  | [] => []
  | n :: ns => n.preorder ++ preorderOf ns

end

/-- The problem of a leaf. -/
def Node.problem? : Node → Option Problem
  | .leaf p _ => some p
  | _ => none

mutual

theorem Node.leaves_eq_preorder : ∀ n : Node, n.leaves = n.preorder.filterMap Node.problem?
  | .fileGroup _ _ children => leavesOf_eq_preorder children
  | .ruleGroup _ children => leavesOf_eq_preorder children
  | .leaf _ _ => rfl

theorem leavesOf_eq_preorder :
    ∀ ns : List Node, leavesOf ns = (preorderOf ns).filterMap Node.problem?
  | [] => rfl
  | n :: ns => by
    rw [leavesOf, preorderOf, List.filterMap_append, n.leaves_eq_preorder, leavesOf_eq_preorder ns]

end

mutual

theorem Node.leafCount_eq_length : ∀ n : Node, n.leafCount = n.leaves.length
  | .fileGroup _ _ children => leafCountOf_eq_length children
  | .ruleGroup _ children => leafCountOf_eq_length children
  | .leaf _ _ => rfl

theorem leafCountOf_eq_length : ∀ ns : List Node, leafCountOf ns = (leavesOf ns).length
  | [] => rfl
  | n :: ns => by
    rw [leafCountOf, leavesOf, List.length_append, n.leafCount_eq_length, leafCountOf_eq_length ns]

end

/-! ## Leaves of groups -/

@[simp] theorem leavesOf_map_leafOf (ps : List Problem) :
    leavesOf (ps.map Grouping.leafOf) = ps := by
  induction ps with
  | nil => rfl
  | cons p ps ih => exact congrArg (p :: ·) ih

/-- Nodes made one after another have their leaves one after another. -/
theorem leavesOf_map {α : Type} (node : α → Node) (gs : List α) :
    leavesOf (gs.map node) = gs.flatMap fun g => (node g).leaves := by
  induction gs with
  | nil => rfl
  | cons g gs ih => rw [List.map_cons, leavesOf, List.flatMap_cons, ih]

theorem leavesOf_map_perm {α : Type} (node : α → Node) (members : α → List Problem) (gs : List α)
    (h : ∀ g, (node g).leaves.Perm (members g)) :
    (leavesOf (gs.map node)).Perm (gs.flatMap members) := by
  rw [leavesOf_map]
  exact List.Perm.flatMap_left gs fun g _ => h g

/-! ## Numbers of leaves -/

/-- The order of problems does not matter for the number of those of a severity. -/
theorem Tally.count_of_perm {ps qs : List Problem} (h : ps.Perm qs) (v : Severity) :
    (ps.map Problem.severity).count v = qs.countP fun q => q.severity = v := by
  rw [List.count, List.countP_map, h.countP_eq]
  apply List.countP_congr
  intro q _
  simp

end ProblemBoard
