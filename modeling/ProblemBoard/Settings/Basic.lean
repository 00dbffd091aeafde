import ProblemBoard.Path.Basic
import ProblemBoard.View.Mode

/-!
# Settings

What a user may choose: which problems are shown, which producers run and with which
configuration, how the list is arranged, and how long a refresh waits.
-/

namespace ProblemBoard

/-- Where a scan takes its findings from. -/
inductive ScanMode where
  /-- Both producers run over the whole workspace. -/
  | workspace
  /-- What the editor has published for its open files. -/
  | openFiles
  deriving DecidableEq, Repr

namespace ScanMode

def name : ScanMode → String
  | workspace => "workspace"
  | openFiles => "open-files"

/-- The mode with exactly this name. -/
def ofName? : String → Option ScanMode
  | "workspace" => some workspace
  | "open-files" => some openFiles
  | _ => none

end ScanMode

/-- Which problems are shown. -/
structure FilterSettings where
  showErrors : Bool
  showWarnings : Bool
  /-- The endings of file names that are shown; none of them shows every file. -/
  fileTypes : List String
  /-- Patterns for files that are not shown. -/
  exclude : List String
  deriving DecidableEq, Repr

/-- Which producers run, and the configurations the user names for them. -/
structure ProducerSettings where
  typeCheck : Bool
  lint : Bool
  typeCheckConfig : Option Path
  lintConfig : Option Path
  deriving DecidableEq, Repr

/-- How the list is made. -/
structure ViewSettings where
  groupBy : GroupMode
  scanMode : ScanMode
  deriving DecidableEq, Repr

/-- How long a refresh waits, in milliseconds. -/
structure Timings where
  /-- The quiet time before a requested refresh starts. -/
  debounce : Nat
  /-- The time before the refresh that was requested while a scan ran. -/
  followUp : Nat
  deriving DecidableEq, Repr

/-- All settings. -/
structure Settings where
  filters : FilterSettings
  producers : ProducerSettings
  view : ViewSettings
  refresh : Timings
  deriving DecidableEq, Repr

/-- Everything is shown but what package managers install. -/
def FilterSettings.default : FilterSettings where
  showErrors := true
  showWarnings := true
  fileTypes := [".ts", ".tsx", ".js", ".jsx", ".mjs", ".cjs", ".vue"]
  exclude := ["**/node_modules/**"]

/-- Both producers run with the configuration of the workspace. -/
def ProducerSettings.default : ProducerSettings := ⟨true, true, none, none⟩

/-- The whole workspace by file. -/
def ViewSettings.default : ViewSettings := ⟨.file, .workspace⟩

/-- Half a second of quiet, and a tenth before a follow-up. -/
def Timings.default : Timings := ⟨500, 100⟩

/-- The settings of a user who chose nothing. -/
def Settings.default : Settings := ⟨.default, .default, .default, .default⟩

/-- A length of time in whole seconds and the milliseconds left over. -/
def Timings.split (ms : Nat) : Nat × Nat := (ms / 1000, ms % 1000)

end ProblemBoard
