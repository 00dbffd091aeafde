import ProblemBoard.Path.Basic

/-!
# Labels of paths

A file of the workspace is shown by its path below the workspace root, with single
separators.  A path outside the root keeps its root directory, so it is never taken for
a file of the workspace.
-/

namespace ProblemBoard

namespace Component

/-- The text of a component between separators, `none` for those that show nothing. -/
def labelText : Component → Option String
  | name s => some s
  | up => some ".."
  | root => none
  | here => none

end Component

namespace Path

/-- The text of components: their texts between separators, behind one separator when they
start at the root directory. -/
def labelOf (cs : List Component) : String :=
  (if cs.head? = some .root then "/" else "") ++ "/".intercalate (cs.filterMap Component.labelText)

/-- How a path is shown in a workspace. -/
def label (root p : Path) : String := labelOf ((root.below? p).getD p.components)

end Path

end ProblemBoard
