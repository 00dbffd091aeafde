import Mathlib.Data.List.Basic
import ProblemBoard.Proofs.Finding.Reports

/-!
# Where continuations go

An indented line continues the message of a finding.  Which one it is depends on the lines in
front of it: the nearest of them that is a *head* is its leader, and if the leader reports a finding
the line is added to its message.  `Attributed` says that an output is read in this way.

Every line that is neither blank nor indented should be a head.  The reader leaves one kind out,
lines in the form of a finding whose numbers are none of 32 bits: what is indented behind such a
line goes to the finding before it.  `continuations_attributed` says that this is the only
exception.

The induction is on the lines read so far.  `Follows` says what the progress knows of them: the
report that the next line would continue is the last of all.
-/

namespace ProblemBoard.CompilerText

open ProblemBoard.Text

/-! ## Lines that others continue -/

/-- The text of an indented line. -/
def Line.text? : Line → Option (List Char)
  | .continuation text => some text
  | _ => none

/-- Whether a line is neither blank nor indented. -/
def Line.standsOut : Line → Bool
  | .blank => false
  | .continuation _ => false
  | _ => true

/-- Whether a line has the form of a finding, but its numbers are none of 32 bits. -/
def Line.isMisnumbered : Line → Bool
  | .located _ l => l.finding?.isNone
  | .global h => h.finding?.isNone
  | _ => false

/-- Whether a line settles what the lines behind it continue. -/
def Line.settles (l : Line) : Bool := l.standsOut && !l.isMisnumbered

section
variable (heads : Line → Bool)

/-- The nearest of the lines in front of the `i`-th one that is a head. -/
def leader? (ls : List Line) : Nat → Option Nat
  | 0 => none
  | i + 1 => if ls[i]?.any heads then some i else leader? ls i

/-- What the `i`-th line continues: the report of its leader. -/
def leading? (ls : List Line) (i : Nat) : Option Report :=
  (leader? heads ls i).bind fun j => ls[j]?.bind Line.report?

/-- The texts of the indented lines that continue the `j`-th one. -/
def followers (ls : List Line) (j : Nat) : List (List Char) :=
  (List.range ls.length).filterMap fun i =>
    if leader? heads ls i = some j then ls[i]?.bind Line.text? else none

/-- What the `j`-th line reports, with all lines of its message. -/
def reportAt (ls : List Line) (j : Nat) : Option Report :=
  (ls[j]?.bind Line.report?).map fun r => (followers heads ls j).foldl Report.extended r

/-- What lines report, in their order. -/
def reports (ls : List Line) : List Report :=
  (List.range ls.length).filterMap (reportAt heads ls)

/-- Whether the `i`-th line is not understood: it is indented and continues nothing, or it stands
out and reports nothing. -/
def isLost (ls : List Line) (i : Nat) : Bool :=
  ls[i]?.any fun l =>
    if l.text?.isSome then (leading? heads ls i).isNone else l.standsOut && l.report?.isNone

/-- Whether an output is read so that each indented line goes to the nearest head in front of it,
when that reports something, and is not understood otherwise. -/
def Attributed (output : String) : Prop :=
  let ls := (lineChars output.toList).map Line.ofChars
  ∃ found, read output = (found, (List.range ls.length).countP (isLost heads ls)) ∧
    Holds (reports heads ls) found

end

/-! ## One more line -/

section
variable {heads : Line → Bool} {ls : List Line} {l : Line} {i j : Nat}

theorem leader?_lt (h : leader? heads ls i = some j) : j < i := by
  induction i with
  | zero => cases h
  | succ i ih =>
    rw [leader?] at h
    split at h
    · obtain rfl := Option.some.inj h
      exact Nat.lt_succ_self i
    · exact Nat.lt_succ_of_lt (ih h)

/-- Between a line and its leader there is no head. -/
theorem not_heads_of_leader? {k : Nat} (h : leader? heads ls i = some j) (hjk : j < k)
    (hki : k < i) : ls[k]?.any heads = false := by
  induction i with
  | zero => cases h
  | succ i ih =>
    rw [leader?] at h
    split at h
    · obtain rfl := Option.some.inj h
      omega
    · next hi =>
      by_cases hk : k = i
      · subst hk
        exact Bool.eq_false_iff.2 hi
      · exact ih h (by omega)

theorem leader?_append (hi : i ≤ ls.length) :
    leader? heads (ls ++ [l]) i = leader? heads ls i := by
  induction i with
  | zero => rfl
  | succ i ih => rw [leader?, leader?, List.getElem?_append_left hi, ih (Nat.le_of_succ_le hi)]

theorem leader?_concat :
    leader? heads (ls ++ [l]) (ls.length + 1) =
      if heads l then some ls.length else leader? heads ls ls.length := by
  rw [leader?, List.getElem?_concat_length, leader?_append (Nat.le_refl _)]
  rfl

theorem leading?_append (hi : i ≤ ls.length) :
    leading? heads (ls ++ [l]) i = leading? heads ls i := by
  rw [leading?, leading?, leader?_append hi]
  cases h : leader? heads ls i with
  | none => rfl
  | some j =>
    have hj : j < ls.length := Nat.lt_of_lt_of_le (leader?_lt h) hi
    simp only [Option.bind_some, List.getElem?_append_left hj]

/-- What the line behind the last one continues. -/
theorem leading?_concat :
    leading? heads (ls ++ [l]) (ls.length + 1) =
      if heads l then l.report? else leading? heads ls ls.length := by
  rw [← leading?_append (l := l) (Nat.le_refl _), leading?, leader?_concat]
  split
  · simp
  · rw [leading?, leader?_append (Nat.le_refl _)]

theorem followers_concat :
    followers heads (ls ++ [l]) j =
      followers heads ls j ++
        if leader? heads ls ls.length = some j then l.text?.toList else [] := by
  rw [followers, List.length_append, List.length_singleton, List.range_succ,
    List.filterMap_append]
  congr 1
  · refine List.filterMap_congr fun i hi => ?_
    rw [List.mem_range] at hi
    rw [leader?_append (Nat.le_of_lt hi), List.getElem?_append_left hi]
  · rw [List.filterMap_cons, List.filterMap_nil, leader?_append (Nat.le_refl _),
      List.getElem?_concat_length, Option.bind_some]
    by_cases h : leader? heads ls ls.length = some j
    · rw [if_pos h, if_pos h]
      cases l.text? <;> rfl
    · rw [if_neg h, if_neg h]

/-- Nothing continues a line that is not there yet. -/
theorem followers_length : followers heads ls ls.length = [] := by
  rw [followers, List.filterMap_eq_nil_iff]
  intro i hi
  rw [List.mem_range] at hi
  refine if_neg fun h => ?_
  exact absurd (leader?_lt h) (Nat.not_lt.2 (Nat.le_of_lt hi))

theorem reportAt_length : reportAt heads (ls ++ [l]) ls.length = l.report? := by
  have hself : leader? heads ls ls.length ≠ some ls.length :=
    fun h => Nat.lt_irrefl _ (leader?_lt h)
  rw [reportAt, followers_concat, followers_length, if_neg hself, List.getElem?_concat_length,
    Option.bind_some]
  cases l.report? <;> rfl

/-- Another line changes a report only by its text, and only that of its leader. -/
theorem reportAt_append (hj : j < ls.length) :
    reportAt heads (ls ++ [l]) j =
      if leader? heads ls ls.length = some j then
        (reportAt heads ls j).map fun r => l.text?.toList.foldl Report.extended r
      else reportAt heads ls j := by
  rw [reportAt, followers_concat, List.getElem?_append_left hj]
  split
  · rw [reportAt, Option.map_map]
    congr 1
    funext r
    exact List.foldl_append
  · rw [List.append_nil, reportAt]

theorem reports_concat :
    reports heads (ls ++ [l]) =
      (List.range ls.length).filterMap (reportAt heads (ls ++ [l])) ++ l.report?.toList := by
  rw [reports, List.length_append, List.length_singleton, List.range_succ,
    List.filterMap_append, List.filterMap_cons, List.filterMap_nil, reportAt_length]
  cases l.report? <;> rfl

/-- A line without a text leaves all reports as they are. -/
theorem reports_concat_of_text?_none (h : l.text? = none) :
    reports heads (ls ++ [l]) = reports heads ls ++ l.report?.toList := by
  rw [reports_concat]
  congr 1
  refine List.filterMap_congr fun j hj => ?_
  rw [reportAt_append (List.mem_range.1 hj), h]
  split
  · cases reportAt heads ls j <;> rfl
  · rfl

/-- So does an indented line that continues nothing. -/
theorem reports_concat_of_leading?_none {text : List Char}
    (h : leading? heads ls ls.length = none) :
    reports heads (ls ++ [.continuation text]) = reports heads ls := by
  rw [reports_concat]
  refine (List.append_nil _).trans (List.filterMap_congr fun j hj => ?_)
  rw [reportAt_append (List.mem_range.1 hj)]
  split
  · next hlead =>
    rw [leading?, hlead, Option.bind_some] at h
    rw [reportAt, h]
    rfl
  · rfl

/-- Only the texts differ between what a line reports at first and in the end. -/
theorem target_of_reportAt {r r' : Report} (hr : ls[j]?.bind Line.report? = some r)
    (h : reportAt heads ls j = some r') : r'.target = r.target := by
  rw [reportAt, hr, Option.map_some] at h
  obtain rfl := Option.some.inj h
  have hfold (texts : List (List Char)) : ∀ r : Report,
      (texts.foldl Report.extended r).target = r.target := by
    induction texts with
    | nil => exact fun _ => rfl
    | cons text texts ih => exact fun r => ih (r.extended text)
  exact hfold _ r

theorem filterMap_range_of_none {α : Type} {g : Nat → Option α} {n : Nat} (hj : j < n)
    (h : ∀ k, j < k → k < n → g k = none) :
    (List.range n).filterMap g = (List.range j).filterMap g ++ (g j).toList := by
  obtain ⟨m, rfl⟩ := Nat.exists_eq_add_of_lt hj
  have hbehind : ((List.range m).map (j + 1 + ·)).filterMap g = [] := by
    rw [List.filterMap_eq_nil_iff]
    intro k hk
    obtain ⟨i, hi, rfl⟩ := List.mem_map.1 hk
    rw [List.mem_range] at hi
    exact h _ (by omega) (by omega)
  have hj : (List.range (j + 1)).filterMap g = (List.range j).filterMap g ++ (g j).toList := by
    rw [List.range_succ, List.filterMap_append, List.filterMap_cons, List.filterMap_nil]
    cases g j <;> rfl
  rw [Nat.add_right_comm, List.range_add, List.filterMap_append, hbehind, List.append_nil, hj]

/-- An indented line makes the message of the last report longer, if it continues one at all:
nothing is reported behind the line it continues, so the report of that line is the last one. -/
theorem reports_concat_of_leading? (hheads : ∀ l : Line, l.report?.isSome → heads l = true)
    {r : Report} (h : leading? heads ls ls.length = some r) (text : List Char) :
    ∃ front r', r'.target = r.target ∧ reports heads ls = front ++ [r'] ∧
      reports heads (ls ++ [.continuation text]) = front ++ [r'.extended text] := by
  obtain ⟨j, hlead, hr⟩ := Option.bind_eq_some_iff.1 h
  have hj := leader?_lt hlead
  have hquiet : ∀ k, j < k → k < ls.length → reportAt heads ls k = none := by
    intro k hjk hk
    have hnot := not_heads_of_leader? hlead hjk hk
    rw [List.getElem?_eq_getElem hk, Option.any_some] at hnot
    rw [reportAt, List.getElem?_eq_getElem hk, Option.bind_some, Option.map_eq_none_iff,
      ← Option.not_isSome_iff_eq_none]
    intro hsome
    rw [hheads _ hsome] at hnot
    cases hnot
  have hother {k : Nat} (hk : k < ls.length) (hne : k ≠ j) :
      reportAt heads (ls ++ [.continuation text]) k = reportAt heads ls k := by
    rw [reportAt_append hk, hlead, if_neg fun heq => hne (Option.some.inj heq).symm]
  obtain ⟨r', hr'⟩ : ∃ r', reportAt heads ls j = some r' := by
    rw [reportAt, hr]
    exact ⟨_, rfl⟩
  have hnew : reportAt heads (ls ++ [.continuation text]) j = some (r'.extended text) := by
    rw [reportAt_append hj, if_pos hlead, hr']
    rfl
  refine ⟨(List.range j).filterMap (reportAt heads ls), r', target_of_reportAt hr hr', ?_, ?_⟩
  · rw [reports, filterMap_range_of_none hj hquiet, hr']
    rfl
  · have hfront : (List.range j).filterMap (reportAt heads (ls ++ [.continuation text])) =
        (List.range j).filterMap (reportAt heads ls) :=
      List.filterMap_congr fun k hk =>
        hother (Nat.lt_trans (List.mem_range.1 hk) hj) (Nat.ne_of_lt (List.mem_range.1 hk))
    rw [reports_concat, filterMap_range_of_none hj fun k hjk hk =>
      (hother hk (Nat.ne_of_gt hjk)).trans (hquiet k hjk hk), hnew, hfront]
    exact List.append_nil _

theorem isLost_append (hi : i < ls.length) :
    isLost heads (ls ++ [l]) i = isLost heads ls i := by
  rw [isLost, isLost, List.getElem?_append_left hi, leading?_append (Nat.le_of_lt hi)]

theorem isLost_length :
    isLost heads (ls ++ [l]) ls.length =
      if l.text?.isSome then (leading? heads ls ls.length).isNone
      else l.standsOut && l.report?.isNone := by
  rw [isLost, List.getElem?_concat_length, leading?_append (Nat.le_refl _), Option.any_some]

/-- The number of lines that are not understood. -/
theorem countP_isLost_concat :
    (List.range (ls ++ [l]).length).countP (isLost heads (ls ++ [l])) =
      (List.range ls.length).countP (isLost heads ls) +
        if (if l.text?.isSome then (leading? heads ls ls.length).isNone
          else l.standsOut && l.report?.isNone) then 1 else 0 := by
  rw [List.length_append, List.length_singleton, List.range_succ, List.countP_append,
    List.countP_singleton, isLost_length]
  congr 1
  refine List.countP_congr fun i hi => ?_
  rw [isLost_append (List.mem_range.1 hi)]

end

/-! ## The progress of the reader -/

/-- How what has been read stands to the lines so far. -/
structure Follows (ls : List Line) (s : Progress) : Prop where
  holds : Holds (reports Line.settles ls) s.findings
  unparsed : s.unparsed = (List.range ls.length).countP (isLost Line.settles ls)
  target : s.target = (leading? Line.settles ls ls.length).elim .nothing Report.target

theorem follows_start : Follows [] .start where
  holds := holds_empty
  unparsed := rfl
  target := rfl

theorem Line.settles_of_report? {l : Line} (h : l.report?.isSome) : l.settles = true := by
  cases l with
  | located file l =>
    rw [report?, Option.isSome_map] at h
    simp [settles, standsOut, isMisnumbered, Option.isNone_eq_false_iff.2 h]
  | global l =>
    rw [report?, Option.isSome_map] at h
    simp [settles, standsOut, isMisnumbered, Option.isNone_eq_false_iff.2 h]
  | _ => cases h

theorem Line.text?_of_report? {l : Line} (h : l.report?.isSome) : l.text? = none := by
  cases l with
  | continuation => cases h
  | _ => rfl

section
variable {ls : List Line} {s : Progress} {line : List Char}

/-- A line that reports something. -/
theorem Follows.report (hs : Follows ls s) {r : Report} (h : (Line.ofChars line).report? = some r) :
    Follows (ls ++ [Line.ofChars line]) (s.step line) := by
  have hsome : (Line.ofChars line).report?.isSome := by
    rw [h]
    rfl
  rw [Progress.step_of_report h]
  constructor
  · rw [reports_concat_of_text?_none (Line.text?_of_report? hsome), h]
    exact hs.holds.add r
  · rw [countP_isLost_concat, Line.text?_of_report? hsome, h]
    simpa using hs.unparsed
  · rw [List.length_append, List.length_singleton, leading?_concat,
      if_pos (Line.settles_of_report? hsome), h]
    rfl

/-- An indented line goes to the report that its leader left as the last one. -/
theorem Follows.continuation (hs : Follows ls s) (text : List Char) :
    Follows (ls ++ [.continuation text]) (s.prolong text) := by
  have htarget : s.target = (leading? Line.settles (ls ++ [.continuation text])
      (ls ++ [Line.continuation text]).length).elim .nothing Report.target := by
    rw [List.length_append, List.length_singleton, leading?_concat]
    exact hs.target
  cases hlead : leading? Line.settles ls ls.length with
  | none =>
    have hnothing : s.target = .nothing := by rw [hs.target, hlead]; rfl
    have hstep : s.prolong text = s.skip := by simp only [Progress.prolong, hnothing]
    rw [hstep]
    constructor
    · rw [reports_concat_of_leading?_none hlead]
      exact hs.holds
    · rw [countP_isLost_concat, hlead]
      exact congrArg (· + 1) hs.unparsed
    · exact htarget
  | some r =>
    obtain ⟨front, r', hr', hold, hnew⟩ :=
      reports_concat_of_leading? (fun _ => Line.settles_of_report?) hlead text
    have hlast : s.target = r'.target := by rw [hs.target, hlead, hr']; rfl
    obtain ⟨f, hstep, hf⟩ := Holds.prolong (hold ▸ hs.holds) hlast text
    rw [hstep]
    constructor
    · rw [hnew]
      exact hf
    · rw [countP_isLost_concat, hlead]
      exact hs.unparsed
    · exact htarget

/-- A line that neither reports anything nor is indented leaves all findings as they are. -/
theorem Follows.silent (hs : Follows ls s) {l : Line} {s' : Progress} (hreport : l.report? = none)
    (htext : l.text? = none) (hfindings : s'.findings = s.findings)
    (hunparsed : s'.unparsed = s.unparsed + if l.standsOut then 1 else 0)
    (htarget : s'.target = if l.settles then .nothing else s.target) : Follows (ls ++ [l]) s' := by
  constructor
  · rw [reports_concat_of_text?_none htext, hreport, hfindings]
    simpa using hs.holds
  · rw [countP_isLost_concat, htext, hreport, hunparsed, hs.unparsed]
    simp
  · rw [List.length_append, List.length_singleton, leading?_concat, htarget, hreport, hs.target]
    cases l.settles <;> rfl

theorem Follows.step (hs : Follows ls s) (line : List Char) :
    Follows (ls ++ [Line.ofChars line]) (s.step line) := by
  cases hr : (Line.ofChars line).report? with
  | some r => exact hs.report hr
  | none =>
    rw [Progress.step]
    cases hline : Line.ofChars line with
    | blank => exact hs.silent rfl rfl rfl rfl rfl
    | continuation text => exact hs.continuation text
    | located file l =>
      have hnone : l.finding? = none := by simpa [hline, Line.report?] using hr
      have hsettles : (Line.located file l).settles = false := by
        simp [Line.settles, Line.isMisnumbered, hnone]
      simp only [hnone]
      exact hs.silent (by simp [Line.report?, hnone]) rfl rfl rfl (by rw [hsettles]; rfl)
    | global h =>
      have hnone : h.finding? = none := by simpa [hline, Line.report?] using hr
      have hsettles : (Line.global h).settles = false := by
        simp [Line.settles, Line.isMisnumbered, hnone]
      simp only [hnone]
      exact hs.silent (by simp [Line.report?, hnone]) rfl rfl rfl (by rw [hsettles]; rfl)
    | other => exact hs.silent rfl rfl rfl rfl rfl

theorem Follows.foldl (hs : Follows ls s) (lines : List (List Char)) :
    Follows (ls ++ lines.map Line.ofChars) (lines.foldl Progress.step s) := by
  induction lines generalizing ls s with
  | nil =>
    rw [List.map_nil, List.append_nil]
    exact hs
  | cons line lines ih =>
    have hnext := ih (hs.step line)
    rwa [List.append_assoc] at hnext

end

/-! ## Heads -/

section
variable {heads heads' : Line → Bool} {ls : List Line}

theorem leader?_congr (h : ∀ l ∈ ls, heads l = heads' l) (i : Nat) :
    leader? heads ls i = leader? heads' ls i := by
  induction i with
  | zero => rfl
  | succ i ih =>
    have hi : ls[i]?.any heads = ls[i]?.any heads' := by
      cases hl : ls[i]? with
      | none => rfl
      | some l => exact h l (List.mem_of_getElem? hl)
    rw [leader?, leader?, hi, ih]

/-- Heads matter only as far as the lines of the output go. -/
theorem Attributed.congr {output : String} (h : Attributed heads output)
    (hheads : ∀ line ∈ lineChars output.toList,
      heads (Line.ofChars line) = heads' (Line.ofChars line)) : Attributed heads' output := by
  have hleader : leader? heads ((lineChars output.toList).map Line.ofChars) =
      leader? heads' ((lineChars output.toList).map Line.ofChars) :=
    funext (leader?_congr (List.forall_mem_map.2 hheads))
  have hlost : isLost heads ((lineChars output.toList).map Line.ofChars) =
      isLost heads' ((lineChars output.toList).map Line.ofChars) := by
    funext i
    simp only [isLost, leading?, hleader]
  have hreport : reportAt heads ((lineChars output.toList).map Line.ofChars) =
      reportAt heads' ((lineChars output.toList).map Line.ofChars) := by
    funext j
    simp only [reportAt, followers, hleader]
  have hreports : reports heads ((lineChars output.toList).map Line.ofChars) =
      reports heads' ((lineChars output.toList).map Line.ofChars) := by
    simp only [reports, hreport]
  rw [Attributed, ← hlost, ← hreports]
  exact h

end

/-- Each indented line goes to the nearest line in front of it that is neither blank nor indented,
if that reports something, and is not understood otherwise; but lines whose numbers are none of 32
bits do not count.  Where there are none of these, they need not be excepted. -/
theorem continuations_attributed (output : String) :
    Attributed Line.settles output ∧
      ((∀ line ∈ lineChars output.toList, (Line.ofChars line).isMisnumbered = false) →
        Attributed Line.standsOut output) := by
  have hread := follows_start.foldl (lineChars output.toList)
  rw [List.nil_append] at hread
  have hsettled : Attributed Line.settles output :=
    ⟨_, Prod.ext rfl hread.unparsed, hread.holds⟩
  refine ⟨hsettled, fun hnone => hsettled.congr fun line hline => ?_⟩
  rw [Line.settles, hnone line hline, Bool.not_false, Bool.and_true]

/-- A continuation goes past a blank line, and one behind a line that is no finding is lost. -/
theorem continuations_attributed_noise :
    let output := "a.ts(1,1): error TS1: A.\n\n  more\nDone.\n  lost\nerror TS2: B.\n\tlast"
    (∀ line ∈ lineChars output.toList, (Line.ofChars line).isMisnumbered = false) ∧
      Attributed Line.standsOut output ∧
      (reports Line.standsOut ((lineChars output.toList).map Line.ofChars)).map
          (fun r => (r.file.map Path.text, r.finding.message)) =
        [(some "a.ts", "A.\nmore"), (none, "B.\nlast")] ∧
      (read output).2 = 2 := by
  intro output
  have hnone : ∀ line ∈ lineChars output.toList, (Line.ofChars line).isMisnumbered = false := by
    decide
  exact ⟨hnone, (continuations_attributed output).2 hnone, by decide, by decide⟩

/-- The continuation of a finding whose line number is too great goes to the finding before it.
Neither the misnumbered line nor the one that continues it should be understood. -/
theorem continuation_of_misnumbered : ¬ ∀ output, Attributed Line.standsOut output := by
  intro h
  let output := "a.ts(1,1): error TS1: A.\nb.ts(4294967296,1): error TS2: B.\n  more\n"
  let ls := (lineChars output.toList).map Line.ofChars
  have hmeant : (List.range ls.length).countP (isLost Line.standsOut ls) = 2 := by decide
  have hactual : (read output).2 = 1 := by decide
  obtain ⟨found, hread, -⟩ := h output
  rw [hread] at hactual
  exact absurd (hmeant.symm.trans hactual) (by decide)

end ProblemBoard.CompilerText
