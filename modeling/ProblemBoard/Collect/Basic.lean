import ProblemBoard.Collect.Filters
import ProblemBoard.Collect.Normal
import ProblemBoard.Exclude.Matcher
import ProblemBoard.FileSystem.Basic
import ProblemBoard.Path.Label
import ProblemBoard.Producer.Basic
import ProblemBoard.Project.Basic

/-!
# Collecting problems

The producers are asked one after another, and what they find is filtered and made
problems.  A producer that fails or panics leaves a failure and nothing else.  Only a
workspace that is no directory, or patterns that cannot be used, keep everything from being
collected; a matcher may have limits to its patterns, and what they are is left open here.

A producer has a name, and asking for it may panic as well.  The name is asked for when
there is something to label: findings, or a panic.  Such a panic is not caught here.

`plan` says which producers are asked what; `Collection.receive` takes in one outcome, so a
collection can be followed step by step; `inquire` asks one producer after another, and `collect`
does it all at once.
-/

namespace ProblemBoard

inductive ProducerKind where
  | typeCheck
  | lint
  | live
  deriving DecidableEq, Repr

/-- What came of asking a producer. -/
inductive Outcome where
  | found (f : Findings)
  | failed (e : Failure)
  /-- It panicked, with a message if it left one. -/
  | panicked (message : Option String)
  deriving DecidableEq, Repr

def Outcome.unknownPanic : String := "unknown panic"

/-- What was collected. -/
structure Collection where
  /-- Problems in files: by producer, then by file, then as reported. -/
  problems : List Problem
  /-- Problems of the program as a whole. -/
  global : List Problem
  failures : List Failure
  deriving DecidableEq, Repr

/-- Why nothing was collected. -/
inductive ScanError where
  /-- The workspace is no directory. -/
  | workspaceUnavailable (root : Path)
  /-- The patterns of files that are left out cannot be used. -/
  | invalidPatterns (reason : String)
  /-- Something panicked outside a producer. -/
  | failedUnexpectedly (reason : String)
  deriving DecidableEq, Repr

def ScanError.message : ScanError → String
  | .workspaceUnavailable root => "workspace root " ++ root.text ++ " is not a directory"
  | .invalidPatterns reason => "invalid exclude pattern: " ++ reason
  | .failedUnexpectedly reason => "scan failed unexpectedly: " ++ reason

def ScanError.cause : ScanError → Option String
  | .invalidPatterns reason => some reason
  | _ => none

/-- How findings are taken in: the workspace, the filters, and the patterns of files that
are left out. -/
structure Intake where
  root : Path
  filters : Filters
  /-- The patterns of the user and of the framework. -/
  patterns : List Exclude.Pattern

namespace Intake

/-- How findings are taken in for a project. -/
def ofProject (p : Project) (f : Filters) : Intake :=
  ⟨p.root, f, Exclude.ofTexts (f.exclude ++ p.excludes)⟩

def keepsFile (i : Intake) (p : Path) : Bool :=
  i.filters.allowsFile p && !Exclude.excludes i.patterns (i.root.label p)

/-- The problems that are kept of a file. -/
def fileProblems (i : Intake) (producer : String) (file : Path) (xs : List Finding) :
    List Problem :=
  let p := i.root.under file
  if i.keepsFile p then
    (xs.map fun x => x.problem p producer).filter fun r => i.filters.allowsSeverity r.severity
  else []

def problems (i : Intake) (producer : String) (f : Findings) : List Problem :=
  f.files.entries.flatMap fun e => i.fileProblems producer e.1 e.2

/-- The problems of the program as a whole; they are shown at the workspace root. -/
def global (i : Intake) (producer : String) (f : Findings) : List Problem :=
  f.global.map fun x => x.problem i.root producer

end Intake

namespace Collection

def empty : Collection := ⟨[], [], []⟩

/-- What was collected and the findings of one more producer. -/
def absorb (c : Collection) (i : Intake) (producer : String) (f : Findings) : Collection :=
  { c with
    problems := c.problems ++ i.problems producer f
    global := c.global ++ i.global producer f }

def fail (c : Collection) (e : Failure) : Collection := { c with failures := c.failures ++ [e] }

/-- What was collected and the outcome of one more producer.  Its name is an error when
asking for it panics. -/
def receive (c : Collection) (i : Intake) (name : Except String String) :
    Outcome → Except String Collection
  | .found f => return c.absorb i (← name) f
  | .failed e => return c.fail e
  | .panicked message =>
      return c.fail (.panicked (← name) (message.getD Outcome.unknownPanic))

end Collection

namespace Collect

/-- Which producers are asked what for a project. -/
def plan (p : Project) (f : Filters) : List (ProducerKind × Request) :=
  match f.scanMode with
  | .openFiles => [(.live, .bare p.root)]
  | .workspace =>
      (match f.typeCheck, p.typeCheckConfig with
        | true, some config => [(.typeCheck, ⟨p.root, some config, p.componentChecker⟩)]
        | _, _ => []) ++
      (if f.lint then [(.lint, ⟨p.root, p.lintConfig.map LintConfig.path, false⟩)] else [])

/-- What collecting ends in when it does not end in a collection. -/
inductive Abort where
  | scan (e : ScanError)
  /-- Something panicked outside a producer. -/
  | panic (message : String)
  deriving DecidableEq, Repr

/-- A collection from its first producer on. -/
structure Inquiry where
  asked : List (ProducerKind × Request)
  result : Except Abort Collection

/-- Asks one producer after another and takes in what comes of it.  `name` is the name of a
producer and `ask` what comes of asking it. -/
def inquire (i : Intake) (name : ProducerKind → Except String String)
    (ask : ProducerKind → Request → Outcome) (c : Collection) :
    List (ProducerKind × Request) → Inquiry
  | [] => ⟨[], .ok c⟩
  | (k, r) :: steps =>
      match c.receive i (name k) (ask k r) with
      | .error message => ⟨[(k, r)], .error (.panic message)⟩
      | .ok c =>
          let rest := inquire i name ask c steps
          ⟨(k, r) :: rest.asked, rest.result⟩

/-- Why nothing can be collected in a workspace, if that is so.  `refused` says why patterns
cannot be used. -/
def obstacle (fs : FileSystem) (refused : List String → Option String) (root : Path)
    (patterns : List String) : Option ScanError :=
  if fs.isDirectory root then (refused patterns).map .invalidPatterns
  else some (.workspaceUnavailable root)

def collect (fs : FileSystem) (refused : List String → Option String)
    (name : ProducerKind → Except String String) (ask : ProducerKind → Request → Outcome)
    (p : Project) (f : Filters) : Inquiry :=
  match obstacle fs refused p.root (f.exclude ++ p.excludes) with
  | some e => ⟨[], .error (.scan e)⟩
  | none => inquire (.ofProject p f) name ask .empty (plan p f)

end Collect

end ProblemBoard
