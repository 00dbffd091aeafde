import ProblemBoard.Finding.Basic
import ProblemBoard.Text.Blank
import ProblemBoard.Text.Digit
import ProblemBoard.Text.Lines

/-!
# The output of the type checker

One finding a line, with its place or without:

    file(line,column): error TS2322: message
    error TS5083: message

A line that starts with a blank continues the message of the finding before it.  The file
name ends at the first place where the rest of the line has the form of a location, so it
may itself hold parentheses.

A line that is not understood is counted.  One that has the form of a finding, but whose
numbers are too great or are not written in ASCII digits, is counted as well; it leaves
open which finding the lines behind it continue.
-/

namespace ProblemBoard.CompilerText

open ProblemBoard.Text

/-- What the type checker calls a finding. -/
inductive Category where
  | error
  | warning
  | suggestion
  | message
  deriving DecidableEq, Repr

namespace Category

def all : List Category := [error, warning, suggestion, message]

def word : Category → String
  | error => "error"
  | warning => "warning"
  | suggestion => "suggestion"
  | message => "message"

/-- How bad a category is. -/
def grade : Category → Grade
  | error => .error
  | warning => .warning
  | suggestion => .hint
  | message => .information

end Category

/-! ## The form of a line -/

/-- What follows a given text at the front. -/
def afterText : List Char → List Char → Option (List Char)
  | [], cs => some cs
  | _ :: _, [] => none
  | t :: ts, c :: cs => if t = c then afterText ts cs else none

/-- The digits at the front, at least one, and what follows. -/
def takeDigits (cs : List Char) : Option (List Char × List Char) :=
  let ds := cs.takeWhile isDigit
  if ds.isEmpty then none else some (ds, cs.dropWhile isDigit)

/-- The category at the front, and what follows. -/
def takeCategory (cs : List Char) : Option (Category × List Char) :=
  Category.all.findSome? fun k => (afterText k.word.toList cs).map fun rest => (k, rest)

/-- What is said of a finding: its category, the digits of its number, and the message. -/
structure Headline where
  category : Category
  code : List Char
  message : List Char
  deriving DecidableEq, Repr

/-- A text of the form `error TS2322: message`. -/
def headline? (cs : List Char) : Option Headline := do
  let (category, cs) ← takeCategory cs
  let cs ← afterText [' ', 'T', 'S'] cs
  let (code, cs) ← takeDigits cs
  let message ← afterText [':', ' '] cs
  return ⟨category, code, message⟩

/-- A location and what is said there: the digits of line and column, and the headline. -/
structure Located where
  /-- The digits of the line. -/
  line : List Char
  /-- The digits of the column. -/
  column : List Char
  headline : Headline
  deriving DecidableEq, Repr

/-- A text of the form `(line,column): headline`. -/
def located? (cs : List Char) : Option Located := do
  let cs ← afterText ['('] cs
  let (line, cs) ← takeDigits cs
  let cs ← afterText [','] cs
  let (column, cs) ← takeDigits cs
  let cs ← afterText [')', ':', ' '] cs
  return ⟨line, column, ← headline? cs⟩

/-- Looks for the first location behind at least one character; `file` holds what stands in
front, in reverse. -/
def splitFile (file : List Char) : List Char → Option (List Char × Located)
  | [] => none
  | c :: cs =>
      if file.isEmpty then splitFile [c] cs
      else
        match located? (c :: cs) with
        | some l => some (file.reverse, l)
        | none => splitFile (c :: file) cs

/-- What a line is. -/
inductive Line where
  /-- It holds blanks only. -/
  | blank
  /-- It starts with a blank; the text is what is between its blanks. -/
  | continuation (text : List Char)
  /-- A finding in a file. -/
  | located (file : List Char) (l : Located)
  /-- A finding of the program as a whole. -/
  | global (h : Headline)
  | other
  deriving DecidableEq, Repr

/-- What a line is. -/
def Line.ofChars (cs : List Char) : Line :=
  if allBlank cs then .blank
  else if cs.head?.any isBlank then .continuation (trimChars cs)
  else
    match splitFile [] cs with
    | some (file, l) => .located file l
    | none =>
        match headline? cs with
        | some h => .global h
        | none => .other

/-! ## Findings of lines -/

/-- A number of 32 bits. -/
def word32 (ds : List Char) : Option Nat := readDecimal maxWord32 ds

/-- The number of a line or a column. -/
def coordinate (ds : List Char) : Option UInt32 := (word32 ds).map UInt32.ofNat

/-- A finding at a position. -/
def findingAt (start : Position) (h : Headline) (code : Nat) : Finding where
  start := start
  stop := none
  base := .one
  grade := h.category.grade
  message := String.ofList h.message
  code := some (.number code)
  source := none

/-- The finding of a location, `none` when a number is no number of 32 bits. -/
def Located.finding? (l : Located) : Option Finding := do
  let line ← coordinate l.line
  let column ← coordinate l.column
  let code ← word32 l.headline.code
  return findingAt ⟨line, column⟩ l.headline code

/-- The finding of a headline alone, `none` when its number is no number of 32 bits. -/
def Headline.finding? (h : Headline) : Option Finding := do
  let code ← word32 h.code
  return findingAt ⟨1, 1⟩ h code

/-- The finding that the next continuation belongs to. -/
inductive Target where
  | nothing
  /-- The last one of a file. -/
  | file (p : Path)
  /-- The last one of the program as a whole. -/
  | global
  deriving DecidableEq, Repr

/-- What has been read of an output. -/
structure Progress where
  findings : Findings
  /-- The number of lines that were not understood. -/
  unparsed : Nat
  /-- What the next continuation belongs to. -/
  target : Target
  deriving DecidableEq, Repr

/-- A finding with one more line of message. -/
def extend (text : List Char) (x : Finding) : Finding :=
  { x with message := x.message ++ "\n" ++ String.ofList text }

/-- A list with its last element changed. -/
def changeLast {α : Type} (f : α → α) : List α → List α
  | [] => []
  | [x] => [f x]
  | x :: y :: rest => x :: changeLast f (y :: rest)

namespace Progress

def start : Progress := ⟨.empty, 0, .nothing⟩

/-- One more line that was not understood. -/
def skip (s : Progress) : Progress := { s with unparsed := s.unparsed + 1 }

/-- A continuation goes to the last finding of its target. -/
def prolong (s : Progress) (text : List Char) : Progress :=
  match s.target with
  | .nothing => s.skip
  | .global =>
      if s.findings.global.isEmpty then s.skip
      else { s with findings := { s.findings with
        global := changeLast (extend text) s.findings.global } }
  | .file p =>
      match s.findings.files.get? p with
      | some (x :: xs) => { s with findings := { s.findings with
          files := s.findings.files.insert p (changeLast (extend text) (x :: xs)) } }
      | _ => s.skip

def step (s : Progress) (line : List Char) : Progress :=
  match Line.ofChars line with
  | .blank => s
  | .continuation text => s.prolong text
  | .located file l =>
      match l.finding? with
      | none => s.skip
      | some x =>
          let p : Path := ⟨String.ofList file⟩
          { s with findings := s.findings.append p [x], target := .file p }
  | .global h =>
      match h.finding? with
      | none => s.skip
      | some x => { s with findings := s.findings.addGlobal x, target := .global }
  | .other => { s.skip with target := .nothing }

end Progress

/-- The findings of an output, and the number of lines that were not understood. -/
def read (output : String) : Findings × Nat :=
  let s := (lineChars output.toList).foldl Progress.step Progress.start
  (s.findings, s.unparsed)

end ProblemBoard.CompilerText
