import ProblemBoard.Text.Blank

/-!
# Group modes

How the list of problems is arranged.  A user may write a mode in any case and with
blanks around it; a settings file must hold one of the exact names.
-/

namespace ProblemBoard

/-- How the list of problems is arranged. -/
inductive GroupMode where
  /-- One group for each file. -/
  | file
  /-- One group for each source and code. -/
  | rule
  /-- Files first, then rules inside each file. -/
  | both
  deriving DecidableEq, Repr, Inhabited

namespace GroupMode

def name : GroupMode → String
  | file => "file"
  | rule => "rule"
  | both => "both"

/-- The mode with exactly this name. -/
def ofName? : String → Option GroupMode
  | "file" => some file
  | "byfile" => some file
  | "rule" => some rule
  | "byrule" => some rule
  | "both" => some both
  | _ => none

/-- How a mode is looked up that a user wrote. -/
def typedName (s : String) : String := Text.lower (Text.trim s)

/-- The mode a user wrote. -/
def ofTyped? (s : String) : Option GroupMode := ofName? (typedName s)

/-- What is said about a mode that does not exist. -/
def unknownMessage (s : String) : String :=
  "unknown group mode '" ++ typedName s ++ "' (expected file, rule or both)"

end GroupMode

end ProblemBoard
