import ProblemBoard.CommandLine.Arguments
import ProblemBoard.CommandLine.Help
import ProblemBoard.CommandLine.Host
import ProblemBoard.CommandLine.Report
import ProblemBoard.Project.Resolution
import ProblemBoard.Settings.Discovery

/-!
# Transcripts

What a run of the program leaves behind: what it wrote, the engines it called, and its exit
status.  A scan ends with one when it shows an error, every run that cannot do its work
ends with one as well, and wrong arguments end with two.
-/

namespace ProblemBoard.CommandLine

/-- What a run of the program leaves behind. -/
structure Transcript where
  status : Nat
  /-- What was written to the standard output. -/
  output : String
  /-- What was written to the standard error output. -/
  notes : String
  calls : List EngineCall

namespace Transcript

/-! ## Runs that do not do their work -/

/-- An error, and the cause behind it if there is one. -/
def errorText (message : String) : Option String → String
  | some cause => unlines ["Error: " ++ message, "", "Caused by:", "    " ++ cause]
  | none => line ("Error: " ++ message)

/-- A run that ends in an error, after some notes and calls. -/
def failed (notes : String) (calls : List EngineCall) (error : String) : Transcript :=
  ⟨1, "", notes ++ error, calls⟩

def settingsText (e : SettingsError) : String :=
  match e with
  | .read _ cause => errorText e.message (some cause.message)
  | .parse _ => errorText e.message none

def abortText : Collect.Abort → String
  | .scan e => errorText e.message e.cause
  | .panic message => errorText message none

/-! ## The commands -/

def scanNotes (p : Project) (f : Filters) : String :=
  unlines (p.warnings.map fun w => "note: " ++ w.message) ++
    if f.scanMode = .openFiles then
      line "note: open-files mode has no live diagnostics source in the terminal"
    else ""

def scan (h : Host) (p : Project) (s : Settings) (json : Bool) : Transcript :=
  let filters := Filters.ofSettings s
  let notes := scanNotes p filters
  let calls := h.calls p filters
  match h.collect p filters with
  | .error e => failed notes calls (abortText e)
  | .ok c =>
      let report := Report.ofCollection p.root s.view.groupBy c
      { status := report.status
        output := if json then line report.toJson.pretty else report.tree
        notes := notes ++ unlines (c.failures.map fun e => "warning: " ++ e.message)
        calls }

/-- Settings with another arrangement, if one is given. -/
def regroup (s : Settings) (group : Option GroupMode) : Settings :=
  { s with view := { s.view with groupBy := group.getD s.view.groupBy } }

/-- A command in a workspace.  Watching a workspace takes a host whose files change. -/
def command (h : Host) (root : Path) (s : Settings) (c : Command) : Transcript :=
  let p := Project.resolve h.fileSystem root (Overrides.ofSettings s)
  match c with
  | .scan group json => scan h p (regroup s group) json
  | .config => ⟨0, line p.toJson.pretty, "", []⟩
  | .watch _ => failed "" [] (errorText "this host has no changing files to watch" none)

/-- A run with arguments that ask for work. -/
def work (h : Host) (a : Arguments) : Transcript :=
  match h.canonical (h.namedRoot a.root) with
  | .error e =>
      failed "" [] <|
        errorText ("workspace root " ++ (h.namedRoot a.root).text) (some e.message)
  | .ok root =>
      match Settings.discover h.fileSystem root h.home a.settings with
      | .error e => failed "" [] (settingsText e)
      | .ok (s, _) => command h root s a.command

def ofArguments (h : Host) (args : List String) : Transcript :=
  match Intent.ofArguments args with
  | .usage =>
      ⟨2, "", unlines ["error: wrong arguments", "", "For more information, try '--help'."], []⟩
  | .help topic => ⟨0, unlines (helpLines topic), "", []⟩
  | .run a => work h.openLog a

end Transcript

end ProblemBoard.CommandLine
