import ProblemBoard.Path.Basic
import ProblemBoard.Text.Utf8

/-!
# File systems

A file system, as far as it is read, is a function from paths to what is found there.  All
that reads files takes such a function, so what it depends on is in its type.

A file that is there need not be readable: opening it may be refused, or reading it may fail.
-/

namespace ProblemBoard

/-- Why nothing is found at a path, or why a file that is there is not read or run. -/
inductive AccessError where
  | missing
  | notDirectory
  | isDirectory
  /-- The file must not be used that way. -/
  | denied
  /-- The device failed. -/
  | failed
  /-- A name in the path, or the path, is too long. -/
  | tooLong
  /-- The path holds a NUL character. -/
  | nul
  /-- The file is no program. -/
  | notProgram
  deriving DecidableEq, Repr

namespace AccessError

def message : AccessError → String
  | missing => "No such file or directory (os error 2)"
  | notDirectory => "Not a directory (os error 20)"
  | isDirectory => "Is a directory (os error 21)"
  | denied => "Permission denied (os error 13)"
  | failed => "Input/output error (os error 5)"
  | tooLong => "File name too long (os error 36)"
  | nul => "file name contained an unexpected NUL byte"
  | notProgram => "Exec format error (os error 8)"

end AccessError

/-- What stands at a path. -/
inductive Entry where
  | directory
  /-- A file with its bytes, or why they cannot be read, and whether it may be run. -/
  | file (content : Except AccessError (List UInt8)) (executable : Bool)
  deriving Repr

/-- What a program sees of the file system. -/
structure FileSystem where
  entry : Path → Except AccessError Entry

/-- Why a file is not read as text. -/
inductive ReadError where
  /-- It cannot be read. -/
  | access (e : AccessError)
  /-- It is no text. -/
  | notText
  deriving DecidableEq, Repr

def ReadError.message : ReadError → String
  | .access e => e.message
  | .notText => "stream did not contain valid UTF-8"

namespace FileSystem

/-- The file system in which the given entries stand, and nothing else. -/
def holding (entries : List (Path × Entry)) : FileSystem where
  entry p :=
    match entries.find? (·.1 = p) with
    | some e => .ok e.2
    | none => .error .missing

/-- One more entry changes nothing at other paths. -/
theorem entry_holding_cons {e : Path × Entry} {entries : List (Path × Entry)} {p : Path}
    (h : p ≠ e.1) : (holding (e :: entries)).entry p = (holding entries).entry p := by
  simp [holding, h.symm]

def isFile (fs : FileSystem) (p : Path) : Bool :=
  match fs.entry p with
  | .ok (.file _ _) => true
  | _ => false

def isDirectory (fs : FileSystem) (p : Path) : Bool :=
  match fs.entry p with
  | .ok .directory => true
  | _ => false

/-- Whether a file that may be run stands at a path. -/
def isProgram (fs : FileSystem) (p : Path) : Bool :=
  match fs.entry p with
  | .ok (.file _ executable) => executable
  | _ => false

def readText (fs : FileSystem) (p : Path) : Except ReadError String :=
  match fs.entry p with
  | .error e => .error (.access e)
  | .ok .directory => .error (.access .isDirectory)
  | .ok (.file (.error e) _) => .error (.access e)
  | .ok (.file (.ok content) _) =>
      match Text.Utf8.decode? content with
      | some s => .ok s
      | none => .error .notText

end FileSystem

end ProblemBoard
