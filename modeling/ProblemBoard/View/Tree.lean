import ProblemBoard.Problem.Tally
import ProblemBoard.View.Mode

/-!
# The tree of problems

Groups of files and rules with the problems as leaves.  The leaves from left to right are
the order in which problems are navigated.
-/

namespace ProblemBoard

/-- A node of the tree. -/
inductive Node where
  /-- The problems of a file. -/
  | fileGroup (label : String) (path : Path) (children : List Node)
  /-- The problems of a rule. -/
  | ruleGroup (label : String) (children : List Node)
  /-- One problem and the address of its file, if it has one. -/
  | leaf (problem : Problem) (address : Option String)

mutual

/-- The leaves of a node from left to right. -/
def Node.leaves : Node → List Problem
  | .fileGroup _ _ children => leavesOf children
  | .ruleGroup _ children => leavesOf children
  | .leaf p _ => [p]

/-- The leaves of nodes from left to right. -/
def leavesOf : List Node → List Problem
  | [] => []
  | n :: ns => n.leaves ++ leavesOf ns

end

mutual

/-- The number of leaves at or below a node. -/
def Node.leafCount : Node → Nat
  | .fileGroup _ _ children => leafCountOf children
  | .ruleGroup _ children => leafCountOf children
  | .leaf _ _ => 1

/-- The number of leaves at or below nodes. -/
def leafCountOf : List Node → Nat
  | [] => 0
  | n :: ns => n.leafCount + leafCountOf ns

end

def Node.children : Node → List Node
  | .fileGroup _ _ children => children
  | .ruleGroup _ children => children
  | .leaf _ _ => []

/-- A tree of problems with its leaves. -/
structure View where
  /-- How the problems are arranged. -/
  mode : GroupMode
  /-- The outermost nodes. -/
  roots : List Node
  /-- The problems in the order of navigation. -/
  flat : List Problem

namespace View

def empty (mode : GroupMode) : View := ⟨mode, [], []⟩

/-- A tree with its leaves from left to right. -/
def ofRoots (mode : GroupMode) (roots : List Node) : View := ⟨mode, roots, leavesOf roots⟩

def isEmpty (v : View) : Bool := v.flat.isEmpty

def leafCount (v : View) : Nat := leafCountOf v.roots

def errorCount (v : View) : Nat := v.flat.countP fun p => p.severity.isError

def tally (v : View) : Tally := Tally.ofProblems v.flat

end View

end ProblemBoard
