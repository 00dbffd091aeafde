import ProblemBoard.Problem.Severity
import ProblemBoard.Settings.Basic
import ProblemBoard.Text.Blank

/-!
# Filters

What a scan leaves out, and which producers it asks.
-/

namespace ProblemBoard

/-- What a scan leaves out, and which producers it asks. -/
structure Filters where
  showErrors : Bool
  showWarnings : Bool
  /-- Whether the type checker is asked. -/
  typeCheck : Bool
  /-- Whether the linter is asked. -/
  lint : Bool
  /-- The endings of file names that are kept; none of them keeps every file. -/
  fileTypes : List String
  /-- The patterns of the user for files that are left out. -/
  exclude : List String
  scanMode : ScanMode
  deriving DecidableEq, Repr

namespace Filters

def ofSettings (s : Settings) : Filters where
  showErrors := s.filters.showErrors
  showWarnings := s.filters.showWarnings
  typeCheck := s.producers.typeCheck
  lint := s.producers.lint
  fileTypes := s.filters.fileTypes
  exclude := s.filters.exclude
  scanMode := s.view.scanMode

/-- Whether problems of a severity are kept.  Information and hints always are. -/
def allowsSeverity (f : Filters) : Severity → Bool
  | .error => f.showErrors
  | .warning => f.showWarnings
  | .info => true
  | .hint => true

/-- Whether a text ends in another one, in any case of ASCII letters. -/
def endsIn (name ending : String) : Bool :=
  (Text.lower ending).toList.isSuffixOf (Text.lower name).toList

def allowsFile (f : Filters) (p : Path) : Bool :=
  f.fileTypes.isEmpty ||
    match p.fileName with
    | some name => f.fileTypes.any (endsIn name)
    | none => false

end Filters

end ProblemBoard
