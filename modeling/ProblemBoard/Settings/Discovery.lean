import ProblemBoard.FileSystem.Basic
import ProblemBoard.Settings.Document

/-!
# Finding settings

A settings file that the user names must be there.  Otherwise the one in the workspace root
is taken, else the one in the user's home directory, else the defaults.
-/

namespace ProblemBoard

/-- Why settings are not read. -/
inductive SettingsError where
  | read (path : Path) (e : ReadError)
  /-- The text holds no settings. -/
  | parse (path : Path)
  deriving DecidableEq, Repr

def SettingsError.message : SettingsError → String
  | .read p e => "failed to read " ++ p.text ++ ": " ++ e.message
  | .parse p => "failed to parse " ++ p.text

namespace Settings

/-- The name of a settings file in a workspace root. -/
def workspaceFile : String := ".lintlens.toml"

/-- The name of the directory in which this program keeps its files. -/
def directoryName : String := ".lintlens"

/-- The settings file in a home directory. -/
def homeFile (home : Path) : Path := (home.child directoryName).child "config.toml"

def load (fs : FileSystem) (p : Path) : Except SettingsError Settings :=
  match fs.readText p with
  | .error e => .error (.read p e)
  | .ok text =>
      match ofText? text with
      | some s => .ok s
      | none => .error (.parse p)

/-- The settings of a workspace, and the file they come from. -/
def discover (fs : FileSystem) (root home : Path) (named : Option Path) :
    Except SettingsError (Settings × Option Path) :=
  match named <|> [root.child workspaceFile, homeFile home].find? fs.isFile with
  | some p => (load fs p).map fun s => (s, some p)
  | none => .ok (default, none)

end Settings

end ProblemBoard
