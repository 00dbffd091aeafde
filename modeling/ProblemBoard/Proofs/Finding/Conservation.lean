import ProblemBoard.Proofs.Finding.LineForm
import ProblemBoard.Proofs.Finding.Reports
import ProblemBoard.Proofs.Text.Lines

/-!
# Lines of an output are accounted for

A line that is not blank brings a finding, or makes the message of one longer by a line, or is
counted because it is not understood.  So nothing is lost: `lines_accounted` says that there are as
many such lines as there are findings, line feeds in their messages and lines not understood,
together.

The induction is on the lines read so far, and `Accounts` is what holds of the progress.  A step
adds a finding somewhere among all of them, `Report.all_addTo`, or changes the message of one,
`Progress.prolong_cases`; where that is does not matter to the sum.
-/

namespace ProblemBoard

/-! ## All findings -/

namespace Findings

/-- All findings of a run: those of files in the order of their paths, and those of the program as
a whole. -/
def all (f : Findings) : List Finding := f.files.values.flatten ++ f.global

theorem length_all (f : Findings) : f.all.length = f.fileCount + f.global.length :=
  List.length_append

/-- The findings of a file stand together among all findings. -/
theorem all_alter (f : Findings) (p : Path)
    (g : Option (List Finding) → List Finding) :
    ∃ front back, f.all = front ++ ((f.files.get? p).getD [] ++ back) ∧
      all { f with files := f.files.alter p g } =
        front ++ (g (f.files.get? p) ++ back) := by
  obtain ⟨front, back, hold, hnew⟩ := f.files.values_alter p g
  refine ⟨front.flatten, back.flatten ++ f.global, ?_, ?_⟩
  · rw [all, hold]
    cases f.files.get? p <;> simp
  · show (f.files.alter p g).values.flatten ++ f.global = _
    rw [hnew]
    simp

/-- Every file that is kept has a finding. -/
def Filed (f : Findings) : Prop := ∀ xs ∈ f.files.values, xs ≠ []

/-- A map of files keeps no file without findings when the findings of one file change. -/
theorem Filed.alter {f : Findings} (hf : f.Filed) (p : Path)
    {g : Option (List Finding) → List Finding} (hg : ∀ old, g old ≠ []) :
    Filed { f with files := f.files.alter p g } := by
  obtain ⟨front, back, hold, hnew⟩ := f.files.values_alter p g
  intro xs hxs
  rw [show PathMap.values _ = _ from hnew, List.mem_append, List.mem_cons] at hxs
  rcases hxs with hxs | rfl | hxs
  · exact hf xs (hold ▸ List.mem_append_left _ hxs)
  · exact hg _
  · exact hf xs (hold ▸ List.mem_append_right _ (List.mem_append_right _ hxs))

end Findings

namespace CompilerText

open ProblemBoard.Text

/-- The number of line feeds in the messages of findings. -/
def lineFeeds (xs : List Finding) : Nat := (xs.flatMap fun x => x.message.toList).count '\n'

theorem lineFeeds_append (xs ys : List Finding) :
    lineFeeds (xs ++ ys) = lineFeeds xs + lineFeeds ys := by
  simp only [lineFeeds, List.flatMap_append, List.count_append]

theorem lineFeeds_cons (x : Finding) (xs : List Finding) :
    lineFeeds (x :: xs) = x.message.toList.count '\n' + lineFeeds xs := by
  simp only [lineFeeds, List.flatMap_cons, List.count_append]

/-- What the type checker says of each finding: where it starts, counted from one, and its number,
and not where it ends. -/
structure Numbered (x : Finding) : Prop where
  base : x.base = .one
  stop : x.stop = none
  code : ∃ n ≤ maxWord32, x.code = some (.number n)

/-! ## Findings of lines -/

theorem numbered_findingAt {start : Position} {h : Headline} {ds : List Char} {n : Nat}
    (hn : word32 ds = some n) : Numbered (findingAt start h n) :=
  ⟨rfl, rfl, n, le_of_readDecimal hn, rfl⟩

theorem Located.numbered_of_finding? {l : Located} {x : Finding} (h : l.finding? = some x) :
    Numbered x ∧ x.message.toList = l.headline.message := by
  simp only [finding?, Option.bind_eq_bind, Option.bind_eq_some_iff, Option.pure_def,
    Option.some.injEq] at h
  obtain ⟨line, -, column, -, code, hcode, rfl⟩ := h
  exact ⟨numbered_findingAt hcode, String.toList_ofList⟩

theorem Headline.numbered_of_finding? {h : Headline} {x : Finding} (hx : h.finding? = some x) :
    Numbered x ∧ x.message.toList = h.message := by
  simp only [finding?, Option.bind_eq_bind, Option.bind_eq_some_iff, Option.pure_def,
    Option.some.injEq] at hx
  obtain ⟨code, hcode, rfl⟩ := hx
  exact ⟨numbered_findingAt hcode, String.toList_ofList⟩

/-- What a line reports is a numbered finding, and its message is taken from the line, which is not
blank. -/
theorem Line.Spelled.report {cs : List Char} {l : Line} (h : l.Spelled cs) {r : Report}
    (hr : l.report? = some r) :
    allBlank cs = false ∧ Numbered r.finding ∧ r.finding.message.toList ⊆ cs := by
  cases h with
  | located hblank hl =>
    obtain ⟨x, hx, rfl⟩ := Option.map_eq_some_iff.1 hr
    obtain ⟨hnumbered, hmessage⟩ := Located.numbered_of_finding? hx
    refine ⟨hblank, hnumbered, ?_⟩
    rw [hmessage, Located.chars, ← List.append_assoc]
    exact List.subset_append_right _ _
  | global hblank hcode =>
    obtain ⟨x, hx, rfl⟩ := Option.map_eq_some_iff.1 hr
    obtain ⟨hnumbered, hmessage⟩ := Headline.numbered_of_finding? hx
    refine ⟨hblank, hnumbered, ?_⟩
    rw [hmessage]
    exact List.subset_append_right _ _
  | blank | continuation | other => cases hr

/-! ## What a step does to the findings -/

theorem Report.filed_addTo (r : Report) {f : Findings} (hf : f.Filed) :
    (r.addTo f).Filed := by
  unfold addTo
  split
  · exact hf.alter _ fun _ => by simp
  · exact hf

/-- A report comes in somewhere among all findings. -/
theorem Report.all_addTo (r : Report) (f : Findings) :
    ∃ front back, f.all = front ++ back ∧ (r.addTo f).all = front ++ r.finding :: back := by
  unfold addTo
  split
  · next p _ =>
    obtain ⟨front, back, hold, hnew⟩ := f.all_alter p fun old => old.getD [] ++ [r.finding]
    refine ⟨front ++ (f.files.get? p).getD [], back, ?_, ?_⟩
    · rw [hold, List.append_assoc]
    · rw [Findings.append, hnew]
      simp
  · exact ⟨f.all, [], (List.append_nil _).symm, (List.append_assoc _ _ _).symm⟩

/-- A continuation is not understood, or it makes the message of one finding longer. -/
theorem Progress.prolong_cases (s : Progress) (text : List Char) :
    s.prolong text = s.skip ∨
      ∃ f front x back, s.prolong text = { s with findings := f } ∧
        s.findings.all = front ++ x :: back ∧ f.all = front ++ extend text x :: back ∧
        (s.findings.Filed → f.Filed) := by
  unfold prolong
  split
  · exact .inl rfl
  · split
    · exact .inl rfl
    · next hne =>
      obtain ⟨xs, x, hxs⟩ : ∃ xs x, s.findings.global = xs ++ [x] :=
        ⟨_, _, (List.dropLast_concat_getLast (by simpa using hne)).symm⟩
      right
      refine ⟨_, s.findings.files.values.flatten ++ xs, x, [], rfl, ?_, ?_, id⟩
      · rw [Findings.all, hxs, List.append_assoc]
      · rw [Findings.all, hxs, changeLast_concat, List.append_assoc]
  · next p _ =>
    split
    · next y ys hfile =>
      obtain ⟨xs, x, hxs⟩ : ∃ xs x, y :: ys = xs ++ [x] :=
        ⟨_, _, (List.dropLast_concat_getLast (List.cons_ne_nil y ys)).symm⟩
      obtain ⟨front, back, hold, hnew⟩ :=
        s.findings.all_alter p fun _ => xs ++ [extend text x]
      right
      rw [hxs, changeLast_concat]
      refine ⟨_, front ++ xs, x, back, rfl, ?_, ?_, fun hf => hf.alter p fun _ => by simp⟩
      · rw [hold, hfile, hxs]
        simp
      · rw [PathMap.insert, hnew]
        simp
    · exact .inl rfl

/-! ## The progress of the reader -/

/-- What holds of the progress when so many lines that are not blank have been read. -/
structure Accounts (n : Nat) (s : Progress) : Prop where
  lines : s.findings.all.length + lineFeeds s.findings.all + s.unparsed = n
  filed : s.findings.Filed
  numbered : ∀ x ∈ s.findings.all, Numbered x

theorem accounts_start : Accounts 0 .start where
  lines := rfl
  filed := nofun
  numbered := nofun

section
variable {n : Nat} {s : Progress}

/-- A line that is not understood is counted. -/
theorem Accounts.lost (h : Accounts n s) {s' : Progress} (hf : s'.findings = s.findings)
    (hu : s'.unparsed = s.unparsed + 1) : Accounts (n + 1) s' where
  lines := by
    rw [hf, hu, ← h.lines]
    rfl
  filed := hf ▸ h.filed
  numbered := hf ▸ h.numbered

/-- A finding that takes the place of others, of which there may be none, accounts for one line more
than they did. -/
theorem Accounts.replace (h : Accounts n s) {f : Findings} {front old back : List Finding}
    {x : Finding} (hold : s.findings.all = front ++ (old ++ back))
    (hnew : f.all = front ++ x :: back) (hfiled : f.Filed) (hx : Numbered x)
    (hcount : x.message.toList.count '\n' = old.length + lineFeeds old) (target : Target) :
    Accounts (n + 1) { s with findings := f, target } where
  lines := by
    have hlines := h.lines
    show f.all.length + lineFeeds f.all + s.unparsed = n + 1
    rw [hold] at hlines
    rw [hnew]
    simp only [List.length_append, List.length_cons, lineFeeds_append, lineFeeds_cons] at hlines ⊢
    omega
  filed := hfiled
  numbered := by
    have hnumbered := h.numbered
    show ∀ y ∈ f.all, Numbered y
    rw [hold] at hnumbered
    rw [hnew]
    intro y hy
    rcases List.mem_append.1 hy with hy | hy
    · exact hnumbered y (List.mem_append_left _ hy)
    · rcases List.mem_cons.1 hy with rfl | hy
      · exact hx
      · exact hnumbered y (List.mem_append_right _ (List.mem_append_right _ hy))

/-- A report is a finding more, and its message is one line. -/
theorem Accounts.report (h : Accounts n s) {r : Report} (hr : Numbered r.finding)
    (hline : '\n' ∉ r.finding.message.toList) (target : Target) :
    Accounts (n + 1) { s with findings := r.addTo s.findings, target } := by
  obtain ⟨front, back, hall, hnew⟩ := r.all_addTo s.findings
  have hold : s.findings.all = front ++ ([] ++ back) := hall
  have hcount : r.finding.message.toList.count '\n' = 0 := List.count_eq_zero.2 hline
  exact h.replace hold hnew (r.filed_addTo h.filed) hr hcount target

/-- A continuation is one line more of a message, if it is not lost. -/
theorem Accounts.prolong (h : Accounts n s) {text : List Char} (hline : '\n' ∉ text) :
    Accounts (n + 1) (s.prolong text) := by
  rcases s.prolong_cases text with hskip | ⟨f, front, x, back, hstep, hall, hnew, hfiled⟩
  · rw [hskip]
    exact h.lost rfl rfl
  · have hold : s.findings.all = front ++ ([x] ++ back) := hall
    have hx : Numbered x := h.numbered x (by simp [hall])
    have hcount : (extend text x).message.toList.count '\n' = 1 + x.message.toList.count '\n' := by
      simp [extend, List.count_eq_zero.2 hline, Nat.add_comm]
    rw [hstep]
    refine h.replace hold hnew (hfiled h.filed) ⟨hx.base, hx.stop, hx.code⟩ ?_ _
    rw [hcount, lineFeeds_cons]
    rfl

theorem Accounts.step (h : Accounts n s) {line : List Char} (hline : '\n' ∉ line) :
    Accounts (n + if allBlank line then 0 else 1) (s.step line) := by
  have hspelled := Line.spelled_ofChars line
  cases hr : (Line.ofChars line).report? with
  | some r =>
    obtain ⟨hblank, hnumbered, hmessage⟩ := hspelled.report hr
    rw [Progress.step_of_report hr, hblank]
    exact h.report hnumbered (fun hmem => hline (hmessage hmem)) _
  | none =>
    rw [Progress.step]
    generalize Line.ofChars line = l at hspelled hr
    cases hspelled with
    | blank hblank =>
      rw [hblank]
      exact h
    | continuation hblank =>
      rw [hblank]
      exact h.prolong fun hmem => hline (trimChars_subset line hmem)
    | located hblank hl =>
      rw [hblank]
      have hnone : Located.finding? _ = none := Option.map_eq_none_iff.1 hr
      simp only [hnone]
      exact h.lost rfl rfl
    | global hblank hcode =>
      rw [hblank]
      have hnone : Headline.finding? _ = none := Option.map_eq_none_iff.1 hr
      simp only [hnone]
      exact h.lost rfl rfl
    | other hblank =>
      rw [hblank]
      exact h.lost rfl rfl

theorem Accounts.foldl (h : Accounts n s) {lines : List (List Char)}
    (hlines : ∀ line ∈ lines, '\n' ∉ line) :
    Accounts (n + lines.countP fun line => !allBlank line) (lines.foldl Progress.step s) := by
  induction lines generalizing n s with
  | nil => exact h
  | cons line lines ih =>
    rw [List.forall_mem_cons] at hlines
    have hrest := ih (h.step hlines.1) hlines.2
    have hcount : n + (line :: lines).countP (fun line => !allBlank line) =
        n + (if allBlank line then 0 else 1) + lines.countP fun line => !allBlank line := by
      rw [List.countP_cons]
      cases allBlank line with
      | true => rfl
      | false =>
        show n + (_ + 1) = n + 1 + _
        omega
    rw [hcount]
    exact hrest

end

/-- The lines of an output that are not blank are as many as the findings, the line feeds in their
messages and the lines that were not understood, together.  No file is kept without a finding, and
each finding has a position that counts from one, no end, and a number for its code. -/
theorem lines_accounted (output : String) :
    (lineChars output.toList).countP (fun line => !allBlank line) =
        (read output).1.fileCount + (read output).1.global.length +
          lineFeeds (read output).1.all + (read output).2 ∧
      (∀ e ∈ (read output).1.files.entries, e.2 ≠ []) ∧
      ∀ x ∈ (read output).1.all,
        x.base = .one ∧ x.stop = none ∧ ∃ n ≤ maxWord32, x.code = some (.number n) := by
  have h := accounts_start.foldl fun line (hline : line ∈ lineChars output.toList) =>
    feed_not_mem_lineChars hline
  rw [Nat.zero_add] at h
  refine ⟨?_, ?_, ?_⟩
  · rw [← Findings.length_all]
    exact h.lines.symm
  · intro e he
    exact h.filed e.2 (List.mem_map_of_mem he)
  · intro x hx
    exact ⟨(h.numbered x hx).base, (h.numbered x hx).stop, (h.numbered x hx).code⟩

/-- Of six lines two bring findings, two continue them and two are not understood. -/
theorem lines_accounted_noise :
    let output := "a.ts(1,1): error TS1: A.\r\n\n  more\nDone.\n  lost\nerror TS2: B.\n\tlast"
    let x : Finding := ⟨⟨1, 1⟩, none, .one, .error, "A.\nmore", some (.number 1), none⟩
    (lineChars output.toList).countP (fun line => !allBlank line) =
        (read output).1.fileCount + (read output).1.global.length +
          lineFeeds (read output).1.all + (read output).2 ∧
      (read output).1.count = 2 ∧ lineFeeds (read output).1.all = 2 ∧ (read output).2 = 2 ∧
      (⟨"a.ts"⟩, [x]) ∈ (read output).1.files.entries ∧ [x] ≠ [] ∧
      x ∈ (read output).1.all ∧ x.base = .one ∧ x.stop = none ∧
      ∃ n ≤ maxWord32, x.code = some (.number n) := by
  intro output x
  have he : (⟨"a.ts"⟩, [x]) ∈ (read output).1.files.entries := by decide
  have hx : x ∈ (read output).1.all := by decide
  obtain ⟨hlines, hfiled, hnumbered⟩ := lines_accounted output
  exact ⟨hlines, by decide, by decide, by decide, he, hfiled _ he, hx, hnumbered x hx⟩

end CompilerText

end ProblemBoard
