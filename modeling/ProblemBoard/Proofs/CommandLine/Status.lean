import ProblemBoard.CommandLine.Transcript
import ProblemBoard.Proofs.Collect.Shares
import ProblemBoard.Proofs.View.Arrangement

/-!
# The status of a scan

A `Scan` is a run of the program that ends in a report: the arguments ask for a scan, and nothing
stands in its way.  `Scan.nonempty_iff` says that these are the scans that print anything.

A report shows the leaves of its tree and, in front of them, the problems of the program as a
whole.  The status counts the leaves alone.  `Scan.status_of_leaves` says what that means for what
the engines found.
-/

namespace ProblemBoard.CommandLine

/-! ## Reports -/

namespace Report

variable {r : Report}

/-- The problems that a report shows: those of the program as a whole on lines of their own, and
the leaves of its tree.  In JSON they are the members of `global` and of `records`. -/
def shown (r : Report) : List Problem := r.collection.global ++ leavesOf r.view.roots

/-- What is printed of a report. -/
def printed (r : Report) (json : Bool) : String := if json then line r.toJson.pretty else r.tree

theorem status_ne_zero_iff : r.status ≠ 0 ↔ ∃ q ∈ r.view.flat, q.severity = .error := by
  have hcount : 0 < r.view.errorCount ↔ ∃ q ∈ r.view.flat, q.severity.isError = true :=
    List.countP_pos_iff
  have herror : ∀ v : Severity, v.isError = true ↔ v = .error := by
    intro v
    cases v <;> decide
  simp only [herror] at hcount
  rw [← hcount, status]
  split
  · next h => simp [h]
  · next h => simp [h]

/-- Something is printed of every report: JSON ends in a line break, and a tree in the number of
problems. -/
theorem printed_ne_empty (json : Bool) : r.printed json ≠ "" := by
  cases json <;> simp [printed, tree, line]

end Report

/-! ## Scans -/

/-- A host collects the shares of its producers in every directory. -/
theorem Host.collect_eq (h : Host) (p : Project) (f : Filters) :
    h.collect p f =
      if h.fileSystem.isDirectory p.root then
        .ok (Collect.shares (.ofProject p f) producerName h.ask (Collect.plan p f))
      else .error (.scan (.workspaceUnavailable p.root)) := by
  rw [collect, inquire, Collect.collect_eq, Collect.obstacle]
  cases h.fileSystem.isDirectory p.root <;> rfl

/-- A run of the program that scans a workspace. -/
structure Scan (h : Host) (args : List String) where
  arguments : Arguments
  group : Option GroupMode
  json : Bool
  root : Path
  settings : Settings
  /-- Where the settings come from. -/
  source : Option Path
  asks : Intent.ofArguments args = .run arguments
  command : arguments.command = .scan group json
  stands : h.openLog.canonical (h.openLog.namedRoot arguments.root) = .ok root
  reads : Settings.discover h.openLog.fileSystem root h.openLog.home arguments.settings =
    .ok (settings, source)
  isDirectory : h.openLog.fileSystem.isDirectory root = true

namespace Scan

variable {h : Host} {args : List String} (x : Scan h args)

def project : Project :=
  Project.resolve h.openLog.fileSystem x.root (Overrides.ofSettings x.settings)

def filters : Filters := Filters.ofSettings x.settings

/-- Who is asked what. -/
def plan : List (ProducerKind × Request) := Collect.plan x.project x.filters

def intake : Intake := .ofProject x.project x.filters

def collection : Collection := Collect.shares x.intake Host.producerName h.openLog.ask x.plan

def report : Report :=
  .ofCollection x.root (x.group.getD x.settings.view.groupBy) x.collection

theorem collect_eq : h.openLog.collect x.project x.filters = .ok x.collection := by
  rw [Host.collect_eq]
  exact if_pos x.isDirectory

/-- What the run leaves behind. -/
theorem transcript_eq :
    Transcript.ofArguments h args =
      { status := x.report.status
        output := x.report.printed x.json
        notes := Transcript.scanNotes x.project x.filters ++
          unlines (x.collection.failures.map fun e => "warning: " ++ e.message)
        calls := h.openLog.calls x.project x.filters } := by
  have hwork : Transcript.ofArguments h args =
      Transcript.scan h.openLog x.project (Transcript.regroup x.settings x.group) x.json := by
    rw [Transcript.ofArguments, x.asks]
    simp only [Transcript.work, x.stands, x.reads, x.command]
    rfl
  have hcollect : h.openLog.collect x.project
      (Filters.ofSettings (Transcript.regroup x.settings x.group)) = .ok x.collection :=
    x.collect_eq
  rw [hwork, Transcript.scan]
  simp only [hcollect]
  rfl

/-- Scans are the runs that are asked for a scan and print something. -/
theorem nonempty_iff :
    Nonempty (Scan h args) ↔
      (∃ a group json, Intent.ofArguments args = .run a ∧ a.command = .scan group json) ∧
        (Transcript.ofArguments h args).output ≠ "" := by
  constructor
  · rintro ⟨x⟩
    refine ⟨⟨x.arguments, x.group, x.json, x.asks, x.command⟩, ?_⟩
    rw [x.transcript_eq]
    exact Report.printed_ne_empty x.json
  · rintro ⟨⟨a, group, json, hasks, hcommand⟩, houtput⟩
    rw [Transcript.ofArguments, hasks] at houtput
    simp only [Transcript.work] at houtput
    cases hroot : h.openLog.canonical (h.openLog.namedRoot a.root) with
    | error e => simp [hroot, Transcript.failed] at houtput
    | ok root =>
      simp only [hroot] at houtput
      cases hreads : Settings.discover h.openLog.fileSystem root h.openLog.home a.settings with
      | error e => simp [hreads, Transcript.failed] at houtput
      | ok found =>
        obtain ⟨settings, source⟩ := found
        cases hdir : h.openLog.fileSystem.isDirectory root with
        | true =>
          exact ⟨⟨a, group, json, root, settings, source, hasks, hcommand, hroot, hreads, hdir⟩⟩
        | false =>
          simp [hreads, hcommand, Transcript.command, Transcript.scan, Host.collect_eq, hdir,
            Project.resolve, Transcript.failed] at houtput

/-! ### Errors -/

/-- Some producer finds an error in a file, and neither the file nor errors are left out. -/
def FileError : Prop :=
  x.filters.showErrors = true ∧
    ∃ s ∈ x.plan, ∃ e ∈ (h.openLog.ask s.1 s.2).findings.files.entries,
      x.intake.keepsFile (x.root.under e.1) = true ∧ ∃ y ∈ e.2, y.grade = .error

/-- Some producer finds an error of the program as a whole. -/
def ProgramError : Prop :=
  ∃ s ∈ x.plan, ∃ y ∈ (h.openLog.ask s.1 s.2).findings.global, y.grade = .error

/-- The leaves are what was collected in files. -/
theorem mem_leaves {q : Problem} :
    q ∈ leavesOf x.report.view.roots ↔ q ∈ x.collection.problems :=
  (View.flat_arrange_perm x.collection.problems _ x.root).mem_iff

theorem leaf_error_iff :
    (∃ q ∈ leavesOf x.report.view.roots, q.severity = .error) ↔ x.FileError := by
  simp only [x.mem_leaves, collection, Collect.problems_shares, List.mem_flatMap,
    Intake.mem_problems]
  constructor
  · rintro ⟨q, ⟨s, hs, e, he, hkeep, y, hy, hallowed, rfl⟩, herror⟩
    have hgrade : y.grade = .error := Grade.severity_eq_error.1 herror
    rw [hgrade] at hallowed
    exact ⟨hallowed, s, hs, e, he, hkeep, y, hy, hgrade⟩
  · rintro ⟨hshow, s, hs, e, he, hkeep, y, hy, hgrade⟩
    refine ⟨_, ⟨s, hs, e, he, hkeep, y, hy, ?_, rfl⟩, Grade.severity_eq_error.2 hgrade⟩
    rw [hgrade]
    exact hshow

theorem global_error_iff :
    (∃ q ∈ x.report.collection.global, q.severity = .error) ↔ x.ProgramError := by
  show (∃ q ∈ x.collection.global, _) ↔ _
  simp only [collection, Collect.global_shares, List.mem_flatMap, Intake.mem_global]
  constructor
  · rintro ⟨q, ⟨s, hs, y, hy, rfl⟩, herror⟩
    exact ⟨s, hs, y, hy, Grade.severity_eq_error.1 herror⟩
  · rintro ⟨s, hs, y, hy, hgrade⟩
    exact ⟨_, ⟨s, hs, y, hy, rfl⟩, Grade.severity_eq_error.2 hgrade⟩

theorem shown_error_iff :
    (∃ q ∈ x.report.shown, q.severity = .error) ↔ x.ProgramError ∨ x.FileError := by
  rw [← x.leaf_error_iff, ← x.global_error_iff]
  simp only [Report.shown, List.mem_append, or_and_right, exists_or]

theorem status_iff : (Transcript.ofArguments h args).status ≠ 0 ↔ x.FileError := by
  rw [x.transcript_eq, ← x.leaf_error_iff]
  exact Report.status_ne_zero_iff

/-- The status of a scan is that of the leaves of its tree: it is not zero just when one of them is
an error.  That is so when a producer finds an error in a file that is not left out.  An error of
the program as a whole is shown whatever is left out, and it does not count; so the status is that
of everything that is shown unless all errors that are shown are of that kind. -/
theorem status_of_leaves :
    (Transcript.ofArguments h args).output = x.report.printed x.json ∧
      ((Transcript.ofArguments h args).status ≠ 0 ↔
        ∃ q ∈ leavesOf x.report.view.roots, q.severity = .error) ∧
      ((Transcript.ofArguments h args).status ≠ 0 ↔ x.FileError) ∧
      ((∃ q ∈ x.report.shown, q.severity = .error) ↔ x.ProgramError ∨ x.FileError) ∧
      (((Transcript.ofArguments h args).status ≠ 0 ↔
          ∃ q ∈ x.report.shown, q.severity = .error) ↔ (x.ProgramError → x.FileError)) := by
  refine ⟨by rw [x.transcript_eq], ?_, x.status_iff, x.shown_error_iff, ?_⟩
  · rw [x.status_iff, x.leaf_error_iff]
  · rw [x.status_iff, x.shown_error_iff]
    constructor
    · intro heq hprogram
      exact heq.2 (.inl hprogram)
    · intro hfile
      exact ⟨.inr, fun herror => herror.elim hfile id⟩

end Scan

/-! ### A workspace with a type checker -/

/-- A workspace in which a type checker is installed, and what the type checker says. -/
def checked (said : String) : Host :=
  let program : Location := ["ws", "node_modules", ".bin", "tsc"]
  { files := ((Image.empty.addDirectory ["home"]).addFile ["ws", "tsconfig.json"] [] false).addFile
      program [] true
    directory := ["ws"]
    home := ⟨"/home"⟩
    searchPath := ""
    programs := [⟨program, ⟨.exited 2, said, ""⟩⟩] }

/-- A scan of that workspace.  What the type checker says has no part in how it begins. -/
def checkedScan (said : String) : Scan (checked said) ["scan"] where
  arguments := ⟨none, none, .scan none false⟩
  group := none
  json := false
  root := ⟨"/ws"⟩
  settings := .default
  source := none
  asks := rfl
  command := rfl
  stands := show (checked "").openLog.canonical ⟨"/ws"⟩ = _ from rfl
  reads :=
    show Settings.discover (checked "").openLog.fileSystem ⟨"/ws"⟩ ⟨"/home"⟩ none = _ from rfl
  isDirectory := show (checked "").openLog.fileSystem.isDirectory ⟨"/ws"⟩ = true by decide +kernel

namespace Scan

/-- The project has a type-check configuration and nothing else. -/
theorem checkedScan_project (said : String) :
    (checkedScan said).project =
      { root := ⟨"/ws"⟩
        typeCheckConfig := some ⟨"/ws/tsconfig.json"⟩
        lintConfig := none
        framework := some Framework.typed
        warnings := [.lintConfigNotFound ⟨"/ws"⟩] } :=
  show Project.resolve (checked "").openLog.fileSystem ⟨"/ws"⟩ ⟨none, none⟩ = _ by decide +kernel

/-- The type checker complains about a file and about the program, and the scan ends with one. -/
theorem status_of_leaves_both :
    let h := checked "a.ts(1,1): error TS2304: Cannot find name.\nerror TS18003: No inputs."
    ∃ x : Scan h ["scan"], x.ProgramError ∧ x.FileError ∧
      (Transcript.ofArguments h ["scan"]).status ≠ 0 := by
  intro h
  have hboth : (checkedScan _ : Scan h ["scan"]).ProgramError ∧
      (checkedScan _ : Scan h ["scan"]).FileError := by
    simp only [ProgramError, FileError, plan, intake, checkedScan_project]
    decide +kernel
  obtain ⟨-, -, hstatus, -, -⟩ := status_of_leaves (checkedScan _ : Scan h ["scan"])
  exact ⟨checkedScan _, hboth.1, hboth.2, hstatus.2 hboth.2⟩

/-- The status is not that of everything that is shown: the type checker complains about the
program alone, which is shown as an error, and the scan ends with zero. -/
theorem status_without_program_error :
    ¬ ∀ (h : Host) (args : List String) (x : Scan h args),
      (Transcript.ofArguments h args).status ≠ 0 ↔
        ∃ q ∈ x.report.shown, q.severity = .error := by
  intro hall
  let x := checkedScan "error TS18003: No inputs."
  have hprogram : x.ProgramError ∧ ¬ x.FileError := by
    simp only [x, ProgramError, FileError, plan, intake, checkedScan_project]
    decide +kernel
  have hstatus := (hall _ _ x).2 (x.shown_error_iff.2 (.inl hprogram.1))
  exact hprogram.2 (x.status_iff.1 hstatus)

end Scan

end ProblemBoard.CommandLine
