import ProblemBoard.Collect.Basic
import ProblemBoard.Json.Encode
import ProblemBoard.Json.Printer
import ProblemBoard.View.Grouping
import ProblemBoard.View.Render

/-!
# Reports

What one scan prints: the problems as a tree, with those of the program as a whole in front
and their number in words behind, or everything as one JSON object.
-/

namespace ProblemBoard.CommandLine

/-- A line of output. -/
def line (text : String) : String := text ++ "\n"

def unlines (texts : List String) : String := String.join (texts.map line)

/-- What one scan found. -/
structure Report where
  root : Path
  collection : Collection
  view : View

namespace Report

/-- The report on a collection. -/
def ofCollection (root : Path) (mode : GroupMode) (c : Collection) : Report :=
  ⟨root, c, View.arrange c.problems mode root⟩

def tree (r : Report) : String :=
  unlines (r.collection.global.map fun p => p.location r.root) ++ r.view.render none ++
    line r.view.summary

def toJson (r : Report) : Json.Value :=
  .object [("failures", .strings (r.collection.failures.map Failure.message)),
    ("global", .array (r.collection.global.map Problem.toJson)),
    ("records", .array (r.view.flat.map Problem.toJson)),
    ("root", .string r.root.text)]

/-- The exit status: one when some problem is an error. -/
def status (r : Report) : Nat := if 0 < r.view.errorCount then 1 else 0

end Report

end ProblemBoard.CommandLine
