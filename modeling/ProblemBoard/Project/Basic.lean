import ProblemBoard.Project.Framework
import ProblemBoard.Project.LintConfig

/-!
# Projects

What is known of a workspace: its root, its configuration files, its framework, and what
was found wanting while looking for them.
-/

namespace ProblemBoard

/-- What a configuration file is for. -/
inductive ConfigKind where
  | typeCheck
  | lint
  deriving DecidableEq, Repr

def ConfigKind.name : ConfigKind → String
  | .typeCheck => "type-check config"
  | .lint => "lint config"

/-- What was found wanting in a workspace. -/
inductive ProjectWarning where
  | typeCheckConfigNotFound (root : Path)
  | lintConfigNotFound (root : Path)
  /-- The user named a configuration that is no file. -/
  | overrideNotFound (kind : ConfigKind) (path : Path)
  /-- The manifest is not read. -/
  | manifestUnreadable (path : Path) (cause : ManifestError)
  deriving DecidableEq, Repr

def ManifestError.message : ManifestError → String
  | .read e => e.message
  | .parse _ => "<json>"

def ProjectWarning.message : ProjectWarning → String
  | .typeCheckConfigNotFound root => "no type-check configuration found in " ++ root.text
  | .lintConfigNotFound root => "no lint configuration found in " ++ root.text
  | .overrideNotFound kind path => kind.name ++ " override " ++ path.text ++ " does not exist"
  | .manifestUnreadable path cause => "could not read " ++ path.text ++ ": " ++ cause.message

/-- The configuration files that the user names. -/
structure Overrides where
  typeCheck : Option Path
  lint : Option Path
  deriving DecidableEq, Repr

def Overrides.none : Overrides := ⟨.none, .none⟩

/-- What is known of a workspace. -/
structure Project where
  root : Path
  typeCheckConfig : Option Path
  lintConfig : Option LintConfig
  framework : Option Framework
  warnings : List ProjectWarning
  deriving DecidableEq, Repr

namespace Project

/-- A workspace of which nothing is known but its root. -/
def bare (root : Path) : Project := ⟨root, none, none, none, []⟩

/-- The patterns of what the framework builds. -/
def excludes (p : Project) : List String :=
  match p.framework with
  | some f => f.excludes
  | none => []

def componentChecker (p : Project) : Bool := p.framework.any (·.componentChecker)

end Project

end ProblemBoard
