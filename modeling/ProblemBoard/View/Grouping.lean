import ProblemBoard.Path.Label
import ProblemBoard.Path.Url
import ProblemBoard.View.Tree

/-!
# Arranging problems

Problems are collected into groups by a key, each group keeping the order in which its
problems came.  Rule groups stand in the order of their labels.  File groups stand in the
order of their labels too, and two files with one label in the order of their paths.
-/

namespace ProblemBoard

namespace Grouping

variable {κ : Type}

/-- Groups with one more member.  It joins the first group with its key, or opens a group
at the end. -/
def addMember (same : κ → κ → Bool) (key : κ) (p : Problem) :
    List (κ × List Problem) → List (κ × List Problem)
  | [] => [(key, [p])]
  | g :: gs =>
      if same g.1 key then (g.1, g.2 ++ [p]) :: gs else g :: addMember same key p gs

/-- The groups of problems by a key, in the order of their first members. -/
def collect (same : κ → κ → Bool) (key : Problem → κ) (ps : List Problem) :
    List (κ × List Problem) :=
  ps.foldl (fun groups p => addMember same (key p) p groups) []

def leafOf (p : Problem) : Node := .leaf p p.file.fileUrl

/-- Whether one label may stand in front of another. -/
def labelLe (a b : String) : Bool := !(b < a)

/-- Whether one labelled path may stand in front of another. -/
def fileLe (a b : String × Path) : Bool :=
  a.1 < b.1 || (a.1 = b.1 && !(b.2.before a.2))

def byRule (ps : List Problem) : List Node :=
  let groups := collect (· == ·) Problem.ruleLabel ps
  (groups.mergeSort fun a b => labelLe a.1 b.1).map fun g => .ruleGroup g.1 (g.2.map leafOf)

/-- The file groups of problems, each with the children that `inside` makes. -/
def byFile (root : Path) (inside : List Problem → List Node) (ps : List Problem) : List Node :=
  let groups := (collect Path.same Problem.file ps).map fun g => ((root.label g.1, g.1), g.2)
  (groups.mergeSort fun a b => fileLe a.1 b.1).map fun g =>
    .fileGroup g.1.1 g.1.2 (inside g.2)

end Grouping

namespace View

/-- The tree of problems in a mode, with labels as seen from the workspace root. -/
def arrange (ps : List Problem) (mode : GroupMode) (root : Path) : View :=
  ofRoots mode <|
    match mode with
    | .file => Grouping.byFile root (·.map Grouping.leafOf) ps
    | .rule => Grouping.byRule ps
    | .both => Grouping.byFile root Grouping.byRule ps

end View

end ProblemBoard
