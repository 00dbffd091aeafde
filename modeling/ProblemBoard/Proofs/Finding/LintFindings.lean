import ProblemBoard.Finding.LintReport
import ProblemBoard.Proofs.Collect.WellFormed
import ProblemBoard.Proofs.Finding.Reports

/-!
# Findings of a lint report

Every message of a lint report is carried over: under each file stand the messages of all its
reports, however the path is spelled in them, and nothing else is there.  `Carried` says so of the
reports that were taken in so far; one more report keeps it, so the whole report does.

`Message.Converted` says what is kept of a message, and that the range it is shown at does not end
before it starts, whatever the report says of its end.
-/

namespace ProblemBoard

/-- More findings of a file are that many more findings of files. -/
theorem Findings.fileCount_append (f : Findings) (p : Path) (xs : List Finding) :
    (f.append p xs).fileCount = f.fileCount + xs.length := by
  obtain ⟨front, back, hold, hnew⟩ := f.files.values_alter p fun old => old.getD [] ++ xs
  have hcount : ∀ g : Findings, g.fileCount = g.files.values.flatten.length := fun g => by
    rw [fileCount, List.flatMap_def]
    rfl
  rw [hcount, hcount, append, hold, hnew]
  cases f.files.get? p <;> simp +arith

namespace LintReport

open CompilerText (filed filed_getD)

/-! ## Messages -/

/-- The range at which a finding is shown that counts from one. -/
structure ShownAt (x : Finding) (r : TextRange) : Prop where
  start : r.start.line.toNat = x.start.line.toNat - 1 ∧
    r.start.column.toNat = x.start.column.toNat - 1
  /-- It does not end before it starts. -/
  ordered : r.start.line < r.stop.line ∨
    r.start.line = r.stop.line ∧ r.start.column ≤ r.stop.column
  /-- An end that is not in front of the start is kept. -/
  stop : ∀ stop, x.stop = some stop → (Base.one.position stop).before r.start = false →
    r.stop = Base.one.position stop

/-- What is kept of a message, and where it is shown. -/
structure Message.Converted (m : Message) (x : Finding) : Prop where
  start : 1 ≤ x.start.line ∧ 1 ≤ x.start.column
  stop : x.stop.isSome = true ↔ m.endLine.isSome = true
  error : x.grade = .error ↔ m.fatal = true ∨ 2 ≤ m.severity
  text : x.message = m.text
  rule : x.code = m.rule.map .text
  shown : ∀ file producer, ShownAt x (x.problem file producer).range

theorem Message.shownAt (m : Message) (file : Path) (producer : String) :
    ShownAt m.finding (m.finding.problem file producer).range where
  start := by
    rw [Finding.start_problem]
    exact ⟨Base.toNat_toZero_one _, Base.toNat_toZero_one _⟩
  ordered := TextRange.start_le_stop _
  stop := by
    intro stop hstop hkept
    rw [Finding.start_problem] at hkept
    show m.finding.range.stop = _
    rw [Finding.range, hstop]
    show (TextRange.between (Base.one.position m.finding.start) _).stop = _
    rw [TextRange.between_stop]
    exact if_neg (Bool.eq_false_iff.1 hkept)

theorem one_le_max_one (n : UInt32) : 1 ≤ max n 1 := by
  show 1 ≤ if n ≤ 1 then 1 else n
  split
  · exact UInt32.le_refl 1
  · next h => exact UInt32.le_of_lt (UInt32.not_le.1 h)

theorem Message.converted (m : Message) : m.Converted m.finding where
  start := ⟨one_le_max_one _, one_le_max_one _⟩
  stop := by rw [finding, Option.isSome_map]
  error := by
    rw [finding]
    by_cases h : (m.fatal || decide (2 ≤ m.severity)) = true
    · rw [if_pos h]
      simpa using h
    · rw [if_neg h]
      simpa using h
  text := rfl
  rule := rfl
  shown := m.shownAt

/-! ## Reports -/

/-- The messages on a file, in the order of the reports. -/
def findingsAt (q : Path) (rs : List FileReport) : List Finding :=
  (rs.filter (·.file.same q)).flatMap fun r => r.messages.map Message.finding

theorem findingsAt_of_same {p q : Path} (h : p.same q = true) (rs : List FileReport) :
    findingsAt p rs = findingsAt q rs := by
  simp only [findingsAt, Path.same, Path.same_iff.1 h]

theorem findingsAt_concat (q : Path) (rs : List FileReport) (r : FileReport) :
    findingsAt q (rs ++ [r]) =
      findingsAt q rs ++ if r.file.same q then r.messages.map Message.finding else [] := by
  cases h : r.file.same q <;> simp [findingsAt, h]

/-- A file has no messages just if no report on it has any. -/
theorem findingsAt_ne_nil_iff {q : Path} {rs : List FileReport} :
    findingsAt q rs ≠ [] ↔ ∃ r ∈ rs, r.messages ≠ [] ∧ r.file.same q = true := by
  simp only [findingsAt, ne_eq, List.flatMap_eq_nil_iff, List.mem_filter, List.map_eq_nil_iff,
    Classical.not_forall, exists_prop]
  refine exists_congr fun r => ?_
  rw [and_assoc]
  exact and_congr_right fun _ => and_comm

/-- Findings are those of reports. -/
structure Carried (rs : List FileReport) (f : Findings) : Prop where
  files : ∀ q, f.files.get? q = filed (findingsAt q rs)
  count : f.fileCount = (rs.flatMap (·.messages)).length
  global : f.global = []

theorem carried_nil : Carried [] .empty := ⟨fun _ => rfl, rfl, rfl⟩

theorem Carried.addReport {rs : List FileReport} {f : Findings} (h : Carried rs f)
    (r : FileReport) : Carried (rs ++ [r]) (addReport f r) := by
  unfold LintReport.addReport
  by_cases hempty : r.messages.isEmpty = true
  · have hnil : r.messages = [] := List.isEmpty_iff.1 hempty
    rw [if_pos hempty]
    refine ⟨fun q => ?_, ?_, h.global⟩
    · rw [h.files, findingsAt_concat, hnil, List.map_nil, ite_self, List.append_nil]
    · simpa [hnil] using h.count
  · rw [if_neg hempty]
    refine ⟨fun q => ?_, ?_, h.global⟩
    · show (f.files.alter r.file _).get? q = _
      rw [PathMap.get?_alter, findingsAt_concat]
      cases hq : r.file.same q with
      | true =>
        rw [if_pos rfl, if_pos rfl, h.files, filed_getD, findingsAt_of_same hq, filed, if_neg]
        simpa using fun _ => hempty
      | false => simpa using h.files q
    · rw [Findings.fileCount_append, h.count, List.length_map, List.flatMap_append,
        List.length_append]
      simp

theorem carried_findings (rs : List FileReport) : Carried rs (findings rs) := by
  have hrun : ∀ done f, Carried done f →
      Carried (done ++ rs) (rs.foldl LintReport.addReport f) := by
    induction rs with
    | nil =>
      intro done f h
      rwa [List.append_nil]
    | cons r rs ih =>
      intro done f h
      have hstep := ih (done ++ [r]) _ (h.addReport r)
      rwa [List.append_assoc] at hstep
  exact hrun [] _ carried_nil

/-- The entry of a file holds its messages, and there is one. -/
theorem Carried.of_mem {rs : List FileReport} {f : Findings} (h : Carried rs f)
    {e : Path × List Finding} (he : e ∈ f.files.entries) :
    e.2 ≠ [] ∧ e.2 = findingsAt e.1 rs := by
  have hget : f.files.get? e.1 = some e.2 :=
    PathMap.get?_eq_some_iff.2 ⟨e, he, e.1.same_refl, rfl⟩
  rw [h.files, filed] at hget
  split at hget
  · cases hget
  · next hne =>
    rw [← Option.some.inj hget]
    exact ⟨by simpa using hne, rfl⟩

/-- A file has an entry just if some report on it has messages. -/
theorem Carried.exists_entry_iff {rs : List FileReport} {f : Findings} (h : Carried rs f)
    {q : Path} :
    (∃ e ∈ f.files.entries, e.1.same q = true) ↔
      ∃ r ∈ rs, r.messages ≠ [] ∧ r.file.same q = true := by
  rw [← findingsAt_ne_nil_iff]
  constructor
  · rintro ⟨e, he, hq⟩
    obtain ⟨hne, hfindings⟩ := h.of_mem he
    rwa [← findingsAt_of_same hq, ← hfindings]
  · intro hne
    have hget : f.files.get? q = some (findingsAt q rs) := by
      rw [h.files, filed, if_neg (by simpa using hne)]
    obtain ⟨e, he, hq, -⟩ := PathMap.get?_eq_some_iff.1 hget
    exact ⟨e, he, hq⟩

/-- A report that can be read is carried over: the files are those with messages, each with all its
messages in the order of the reports, so there are as many findings as messages, and none of the
program as a whole.  A message keeps its severity and what it says, and it is shown at a range that
does not end before it starts. -/
theorem report_carried_over {text : String} {rs : List FileReport} (h : ofText text = .ok rs) :
    ∃ f, read text = .ok f ∧
      (∀ q, (∃ e ∈ f.files.entries, e.1.same q = true) ↔
        ∃ r ∈ rs, r.messages ≠ [] ∧ r.file.same q = true) ∧
      (f.files.entries.Pairwise fun d e => d.1.same e.1 = false) ∧
      (∀ e ∈ f.files.entries, e.2 ≠ [] ∧ e.2 = findingsAt e.1 rs) ∧
      f.fileCount = (rs.flatMap (·.messages)).length ∧
      f.global = [] ∧
      ∀ r ∈ rs, ∀ m ∈ r.messages, m.Converted m.finding := by
  have hcarried := carried_findings rs
  refine ⟨findings rs, ?_, fun q => hcarried.exists_entry_iff, ?_, fun e he => hcarried.of_mem he,
    hcarried.count, hcarried.global, fun r _ m _ => m.converted⟩
  · rw [read, h]
    rfl
  · exact (findings rs).files.sorted.imp Path.not_same_of_before

/-- A file is spelled in two ways.  Its first message ends in front of its start, its second one has
no place, and both stand under the file however it is spelled. -/
theorem report_carried_over_respelled :
    let text := "[\x7b\"filePath\":\"/a\",\"messages\":[\x7b\"message\":\"\",\"line\":2," ++
      "\"endLine\":0\x7d]\x7d,\x7b\"filePath\":\"//a\",\"messages\":[\x7b\"message\":\"\"\x7d]\x7d]"
    let reversed : LintReport.Message := ⟨none, 0, false, "", some 2, none, some 0, none⟩
    let unplaced : LintReport.Message := ⟨none, 0, false, "", none, none, none, none⟩
    ofText text = .ok [⟨⟨"/a"⟩, [reversed]⟩, ⟨⟨"//a"⟩, [unplaced]⟩] ∧
      ∃ f, read text = .ok f ∧
        (∃ e ∈ f.files.entries, e.1.same ⟨"/./a"⟩ = true ∧
          e.2 = [reversed.finding, unplaced.finding]) ∧
        ∃ r, (reversed.finding.problem ⟨"/a"⟩ "lint").range = r ∧ ShownAt reversed.finding r ∧
          r.start = ⟨1, 0⟩ ∧ r.stop = ⟨1, 0⟩ := by
  intro text reversed unplaced
  have hdecoded : (ofText text).toOption = some [⟨⟨"/a"⟩, [reversed]⟩, ⟨⟨"//a"⟩, [unplaced]⟩] := by
    decide +kernel
  have htext : ofText text = .ok [⟨⟨"/a"⟩, [reversed]⟩, ⟨⟨"//a"⟩, [unplaced]⟩] := by
    cases hof : ofText text with
    | error fault =>
      rw [hof] at hdecoded
      cases hdecoded
    | ok rs =>
      rw [hof] at hdecoded
      exact congrArg _ (Option.some.inj hdecoded)
  obtain ⟨f, hread, hfiles, -, hentries, -, -, hconverted⟩ := report_carried_over htext
  refine ⟨htext, f, hread, ?_, _, rfl, ?_, by decide, by decide⟩
  · obtain ⟨e, he, hsame⟩ := (hfiles ⟨"/./a"⟩).2 ⟨_, .head _, List.cons_ne_nil _ _, by decide⟩
    refine ⟨e, he, hsame, ?_⟩
    rw [(hentries e he).2, findingsAt_of_same hsame]
    decide
  · exact (hconverted _ (.head _) reversed (.head _)).shown _ _

end LintReport

end ProblemBoard
