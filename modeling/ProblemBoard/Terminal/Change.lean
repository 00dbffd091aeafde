import ProblemBoard.Project.Resolution
import ProblemBoard.Settings.Discovery

/-!
# Changes of the workspace

What a batch of changed files asks for.  Files in directories of packages and of tools are
ignored.  A settings file asks for more than a configuration file, and that for more than
any other file; a batch asks for the most that one of its files asks for.
-/

namespace ProblemBoard.Terminal

/-- What changed files ask for. -/
inductive Change where
  | sources
  /-- Resolving the project, and a scan. -/
  | projectConfig
  /-- Reading the settings again. -/
  | settings (file : Path)
  deriving DecidableEq, Repr

namespace Change

/-- The directories whose files are ignored. -/
def ignoredNames : List String := ["node_modules", ".git", ".lintlens"]

/-- Whether a file lies in a directory that is ignored. -/
def isIgnored (p : Path) : Bool :=
  p.components.any fun
    | .name s => ignoredNames.contains s
    | _ => false

/-- Whether a file is a settings file: the one in use, or one of the name that is looked
for. -/
def isSettings (inUse : Option Path) (p : Path) : Bool :=
  inUse.any p.same || p.fileName = some Settings.workspaceFile

/-- What a batch of changed files asks for, if for anything. -/
def ofBatch (files : List Path) (inUse : Option Path) : Option Change :=
  let relevant := files.filter fun p => !isIgnored p
  match relevant.find? (isSettings inUse) with
  | some p => some (.settings p)
  | none =>
      if relevant.any Project.isAffectedBy then some .projectConfig
      else if relevant.isEmpty then none
      else some .sources

end Change

end ProblemBoard.Terminal
