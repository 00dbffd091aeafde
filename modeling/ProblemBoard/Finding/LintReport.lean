import ProblemBoard.Finding.Basic
import ProblemBoard.Json.Reader
import ProblemBoard.Text.Blank

/-!
# The report of the linter

The report is a JSON array with one entry for each file.  A message has a rule, a severity
and a place, each of which may be missing; its text may not.  Messages on files whose paths
are the same are put together in the order of the report, and a file without messages
leaves nothing.
-/

namespace ProblemBoard.LintReport

open ProblemBoard.Json (Fault Reader)

/-- One message of the report. -/
structure Message where
  /-- The rule. -/
  rule : Option String
  /-- The severity as a number. -/
  severity : Nat
  /-- Whether the file could not be read at all. -/
  fatal : Bool
  text : String
  /-- The line, counted from one. -/
  line : Option UInt32
  /-- The column, counted from one. -/
  column : Option UInt32
  /-- The last line. -/
  endLine : Option UInt32
  /-- The column behind the last one. -/
  endColumn : Option UInt32
  deriving DecidableEq, Repr

/-- What is said about one file. -/
structure FileReport where
  file : Path
  messages : List Message
  deriving DecidableEq, Repr

/-! ## Reading -/

/-- A number of 32 bits or `null`. -/
def word32? : Reader (Option UInt32) :=
  Reader.option do return .ofNat (← Reader.nat Text.maxWord32)

def messageFields : List (Reader.Field Message) :=
  [⟨"ruleId", false, fun m => return { m with rule := ← Reader.option Reader.string }⟩,
   ⟨"severity", false, fun m => return { m with severity := ← Reader.nat 255 }⟩,
   ⟨"fatal", false, fun m => return { m with fatal := ← Reader.bool }⟩,
   ⟨"message", true, fun m => return { m with text := ← Reader.string }⟩,
   ⟨"line", false, fun m => return { m with line := ← word32? }⟩,
   ⟨"column", false, fun m => return { m with column := ← word32? }⟩,
   ⟨"endLine", false, fun m => return { m with endLine := ← word32? }⟩,
   ⟨"endColumn", false, fun m => return { m with endColumn := ← word32? }⟩]

def message : Reader Message :=
  Reader.record messageFields ⟨none, 0, false, "", none, none, none, none⟩

def fileFields : List (Reader.Field FileReport) :=
  [⟨"filePath", true, fun r => return { r with file := ⟨← Reader.string⟩ }⟩,
   ⟨"messages", false, fun r => return { r with messages := ← Reader.list message }⟩]

/-- The file reports of a report. -/
def ofText (text : String) : Except Fault (List FileReport) :=
  Reader.run (Reader.list (Reader.record fileFields ⟨⟨""⟩, []⟩)) (Text.trim text)

/-! ## Findings -/

/-- Where a message starts: a missing or impossible number is one. -/
def Message.start (m : Message) : Position :=
  ⟨max (m.line.getD 1) 1, max (m.column.getD 1) 1⟩

/-- A message as a finding. -/
def Message.finding (m : Message) : Finding where
  start := m.start
  stop := m.endLine.map fun line => ⟨line, m.endColumn.getD m.start.column⟩
  base := .one
  grade := if m.fatal || 2 ≤ m.severity then .error else .warning
  message := m.text
  code := m.rule.map .text
  source := none

/-- The findings with those of one file report. -/
def addReport (f : Findings) (r : FileReport) : Findings :=
  if r.messages.isEmpty then f else f.append r.file (r.messages.map Message.finding)

def findings (rs : List FileReport) : Findings := rs.foldl addReport .empty

/-- The findings of a report. -/
def read (text : String) : Except Fault Findings := (ofText text).map findings

end ProblemBoard.LintReport
