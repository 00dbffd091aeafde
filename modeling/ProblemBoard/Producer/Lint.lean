import ProblemBoard.Finding.LintReport
import ProblemBoard.Producer.Engine
import ProblemBoard.Project.LintConfig

/-!
# The lint producer

The linter runs over the whole workspace and writes a report.  It ends badly whenever it
finds an error, so the report decides whether it did its work.  Without a configuration it
is not run at all.
-/

namespace ProblemBoard.Lint

def engine : String := "eslint"

/-- The endings of the files that the linter looks at, when its configuration does not
say. -/
def legacyExtensions : String := ".js,.jsx,.ts,.tsx,.vue"

/-- The configuration for a request, and whether the request names it. -/
def config (fs : FileSystem) (r : Request) : Option LintConfig × Bool :=
  match r.config with
  | some p => (some (LintConfig.ofPath p), true)
  | none =>
      let manifest :=
        match Manifest.read fs r.root with
        | .ok m => m
        | .error _ => none
      (LintConfig.discover fs r.root manifest, false)

/-- The arguments for a configuration.  A configuration inside the manifest cannot be
named. -/
def args (c : LintConfig) (named : Bool) : List String :=
  ["--format", "json"] ++
    (if named && c.format != .packageManifest then ["--config", c.path.text] else []) ++
    (if c.isFlat then [] else ["--ext", legacyExtensions]) ++ ["."]

def environment (c : LintConfig) : List (String × String) :=
  if c.isFlat then [] else [("ESLINT_USE_FLAT_CONFIG", "false")]

/-- What is made of what the linter left behind. -/
def judge (o : EngineOutput) : Except Failure Findings :=
  match LintReport.read o.stdout with
  | .ok found => .ok found
  | .error _ =>
      if o.status.isSuccess then .error (.outputUnparseable lintName "<json>")
      else .error (.invocationFailed lintName (o.exitMessage engine))

def run (fs : FileSystem) (locate : String → Option Path) (launch : Launcher) (r : Request) :
    EngineRun :=
  match config fs r with
  | (none, _) => ⟨[], none, .ok .empty⟩
  | (some c, named) =>
      Engine.run lintName engine locate launch
        (fun program => ⟨program, args c named, r.root, environment c⟩) judge

end ProblemBoard.Lint
