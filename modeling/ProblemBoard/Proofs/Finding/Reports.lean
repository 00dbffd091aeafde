import ProblemBoard.Finding.CompilerText

/-!
# Findings as a list of reports

The findings of a run are kept by file, and those of the program as a whole apart from them.  Both
come from one list of reports, each of them a finding and the file that it is about.  `Holds` says
so; it is kept when one more report comes in, and when the message of the last one goes on.
-/

namespace ProblemBoard.CompilerText

/-! ## Reports -/

/-- A finding and the file that it is about, `none` for the program as a whole. -/
structure Report where
  file : Option Path
  finding : Finding
  deriving DecidableEq, Repr

namespace Report

def isAt (q : Path) (r : Report) : Bool := r.file.any (·.same q)

/-- A report with one more line of message. -/
def extended (r : Report) (text : List Char) : Report :=
  { r with finding := extend text r.finding }

/-- What the next continuation belongs to. -/
def target (r : Report) : Target :=
  match r.file with
  | some p => .file p
  | none => .global

/-- Findings with one more report. -/
def addTo (r : Report) (f : Findings) : Findings :=
  match r.file with
  | some p => f.append p [r.finding]
  | none => f.addGlobal r.finding

end Report

/-- The findings of a file, in the order of their reports. -/
def reportedAt (q : Path) (rs : List Report) : List Finding :=
  (rs.filter (·.isAt q)).map Report.finding

/-- The findings of the program as a whole, in the order of their reports. -/
def reportedGlobally (rs : List Report) : List Finding :=
  (rs.filter (·.file.isNone)).map Report.finding

/-- What a map holds for a file with some findings: nothing when there are none. -/
def filed (xs : List Finding) : Option (List Finding) := if xs.isEmpty then none else some xs

@[simp] theorem filed_getD (xs : List Finding) : (filed xs).getD [] = xs := by
  cases xs <;> rfl

theorem reportedAt_of_same {p q : Path} (h : p.same q = true) (rs : List Report) :
    reportedAt p rs = reportedAt q rs := by
  have hat (r : Report) : r.isAt p = r.isAt q := by
    simp only [Report.isAt, Path.same, Path.same_iff.1 h]
  simp [reportedAt, hat]

/-! ## Findings -/

/-- Findings are those of a list of reports. -/
structure Holds (rs : List Report) (f : Findings) : Prop where
  files : ∀ q, f.files.get? q = filed (reportedAt q rs)
  global : f.global = reportedGlobally rs

theorem holds_empty : Holds [] .empty where
  files := fun _ => rfl
  global := rfl

section
variable {rs : List Report} {r : Report} {f : Findings} {p : Path}

/-- A report about a file is the last one of that file, and the others are as before. -/
theorem holds_concat_file_iff (h : r.file = some p) :
    Holds (rs ++ [r]) f ↔
      (∀ q, f.files.get? q =
        if p.same q then some (reportedAt p rs ++ [r.finding]) else filed (reportedAt q rs)) ∧
      f.global = reportedGlobally rs := by
  have hat (q : Path) : filed (reportedAt q (rs ++ [r])) =
      if p.same q then some (reportedAt p rs ++ [r.finding]) else filed (reportedAt q rs) := by
    cases hq : p.same q with
    | true =>
      rw [← reportedAt_of_same hq]
      simp [filed, reportedAt, Report.isAt, h, p.same_refl]
    | false => simp [reportedAt, Report.isAt, h, hq]
  have hglobal : reportedGlobally (rs ++ [r]) = reportedGlobally rs := by
    simp [reportedGlobally, h]
  constructor
  · intro hf
    exact ⟨fun q => (hf.files q).trans (hat q), hf.global.trans hglobal⟩
  · rintro ⟨hfiles, hrest⟩
    exact ⟨fun q => (hfiles q).trans (hat q).symm, hrest.trans hglobal.symm⟩

/-- A report about the program is the last one of the program, and all files are as before. -/
theorem holds_concat_global_iff (h : r.file = none) :
    Holds (rs ++ [r]) f ↔
      (∀ q, f.files.get? q = filed (reportedAt q rs)) ∧
      f.global = reportedGlobally rs ++ [r.finding] := by
  have hat (q : Path) : reportedAt q (rs ++ [r]) = reportedAt q rs := by
    simp [reportedAt, Report.isAt, h]
  have hglobal : reportedGlobally (rs ++ [r]) = reportedGlobally rs ++ [r.finding] := by
    simp [reportedGlobally, h]
  constructor
  · intro hf
    exact ⟨fun q => hat q ▸ hf.files q, hf.global.trans hglobal⟩
  · rintro ⟨hfiles, hrest⟩
    exact ⟨fun q => (hat q).symm ▸ hfiles q, hrest.trans hglobal.symm⟩

theorem Holds.add (hf : Holds rs f) (r : Report) : Holds (rs ++ [r]) (r.addTo f) := by
  cases h : r.file with
  | some p =>
    rw [holds_concat_file_iff h, Report.addTo, h]
    refine ⟨fun q => ?_, hf.global⟩
    show (f.files.alter p _).get? q = _
    rw [PathMap.get?_alter, hf.files, hf.files, filed_getD]
  | none =>
    rw [holds_concat_global_iff h, Report.addTo, h]
    exact ⟨hf.files, congrArg (· ++ [r.finding]) hf.global⟩

end

/-! ## Steps of the reader -/

theorem changeLast_concat {α : Type} (f : α → α) (xs : List α) (x : α) :
    changeLast f (xs ++ [x]) = xs ++ [f x] := by
  induction xs with
  | nil => rfl
  | cons y ys ih =>
    cases ys with
    | nil => rfl
    | cons z zs => exact congrArg (y :: ·) ih

section
variable {rs : List Report} {r : Report} {s : Progress}

/-- A continuation makes the message of the last report longer, wherever its finding is: it is the
last one of its file, whichever files came before, or the last one of the program as a whole. -/
theorem Holds.prolong (hs : Holds (rs ++ [r]) s.findings) (ht : s.target = r.target)
    (text : List Char) :
    ∃ f, s.prolong text = { s with findings := f } ∧ Holds (rs ++ [r.extended text]) f := by
  cases h : r.file with
  | some p =>
    have htarget : s.target = .file p := by rw [ht, Report.target, h]
    obtain ⟨hfiles, hglobal⟩ := (holds_concat_file_iff h).1 hs
    have hlast := hfiles p
    rw [if_pos p.same_refl] at hlast
    refine ⟨{ s.findings with
      files := s.findings.files.insert p (reportedAt p rs ++ [(r.extended text).finding]) }, ?_, ?_⟩
    · obtain ⟨x, xs, hx⟩ : ∃ x xs, reportedAt p rs ++ [r.finding] = x :: xs :=
        List.exists_cons_of_ne_nil (by simp)
      rw [hx] at hlast
      simp only [Progress.prolong, htarget, hlast]
      rw [← hx, changeLast_concat, Report.extended]
    · rw [holds_concat_file_iff (r := r.extended text) h]
      refine ⟨fun q => ?_, hglobal⟩
      rw [PathMap.get?_insert, hfiles]
      split <;> rfl
  | none =>
    have htarget : s.target = .global := by rw [ht, Report.target, h]
    obtain ⟨hfiles, hglobal⟩ := (holds_concat_global_iff h).1 hs
    refine ⟨{ s.findings with
      global := reportedGlobally rs ++ [(r.extended text).finding] }, ?_, ?_⟩
    · have hne : s.findings.global.isEmpty = false := by simp [hglobal]
      simp only [Progress.prolong, htarget, hne]
      rw [hglobal, changeLast_concat, Report.extended]
      rfl
    · exact (holds_concat_global_iff (r := r.extended text) h).2 ⟨hfiles, rfl⟩

end

/-- What a line reports. -/
def Line.report? : Line → Option Report
  | .located file l => l.finding?.map fun x => ⟨some ⟨String.ofList file⟩, x⟩
  | .global h => h.finding?.map fun x => ⟨none, x⟩
  | _ => none

/-- A line that reports a finding brings it, and continuations belong to it from then on. -/
theorem Progress.step_of_report {line : List Char} {r : Report}
    (h : (Line.ofChars line).report? = some r) (s : Progress) :
    s.step line = { s with findings := r.addTo s.findings, target := r.target } := by
  rw [step]
  cases hline : Line.ofChars line with
  | located file l =>
    rw [hline] at h
    obtain ⟨x, hx, rfl⟩ := Option.map_eq_some_iff.1 h
    simp only [hx]
    rfl
  | global l =>
    rw [hline] at h
    obtain ⟨x, hx, rfl⟩ := Option.map_eq_some_iff.1 h
    simp only [hx]
    rfl
  | _ =>
    rw [hline] at h
    cases h

end ProblemBoard.CompilerText
