import ProblemBoard.Proofs.View.Arrangement

/-!
# Rules and their labels

A rule is a source and a code, and a rule group goes by the label made of them.  So problems of one
rule are in one group.  The other way round the label decides, and it tells the source from the code
only by the separator between them: a source that holds the separator itself may go on where another
one ends and the code begins.  `Problem.ruleLabel_eq_iff` says when two labels are the same, and
`View.same_ruleGroup_iff` what that means for the tree.
-/

namespace ProblemBoard

namespace Problem

variable {p q : Problem}

/-! ## Labels -/

/-- What the label of a rule holds behind the source. -/
def behindSource (p : Problem) : String :=
  match p.effectiveCode with
  | some code => ": " ++ code
  | none => ""

/-- Two problems of one rule: the same source and the same code. -/
def SameRule (p q : Problem) : Prop :=
  p.effectiveSource = q.effectiveSource ∧ p.effectiveCode = q.effectiveCode

/-- The source of a problem covers the source of another one, the separator, and the start of its
code; what is left of that code is what the first label holds behind its source. -/
def Covers (p q : Problem) : Prop :=
  ∃ rest, p.effectiveSource = q.effectiveSource ++ ": " ++ rest ∧
    q.effectiveCode = some (rest ++ p.behindSource)

theorem ruleLabel_eq_append (p : Problem) : p.ruleLabel = p.effectiveSource ++ p.behindSource := by
  unfold ruleLabel behindSource
  cases p.effectiveCode with
  | some code => exact String.append_assoc
  | none => exact String.append_empty.symm

/-- Behind the source stands the separator, if anything. -/
theorem behindSource_cases (p : Problem) :
    p.effectiveCode = none ∧ p.behindSource.toList = [] ∨
      ∃ code, p.effectiveCode = some code ∧
        p.behindSource.toList = ':' :: ' ' :: code.toList := by
  unfold behindSource
  cases p.effectiveCode with
  | some code => exact .inr ⟨code, rfl, String.toList_append⟩
  | none => exact .inl ⟨rfl, rfl⟩

theorem effectiveCode_eq_of_behindSource (h : p.behindSource = q.behindSource) :
    p.effectiveCode = q.effectiveCode := by
  have hchars := congrArg String.toList h
  rcases p.behindSource_cases with ⟨hp, hpt⟩ | ⟨a, hp, hpt⟩ <;>
    rcases q.behindSource_cases with ⟨hq, hqt⟩ | ⟨b, hq, hqt⟩
  · rw [hp, hq]
  · rw [hpt, hqt] at hchars
    cases hchars
  · rw [hpt, hqt] at hchars
    cases hchars
  · rw [hpt, hqt, List.cons.injEq, List.cons.injEq, String.toList_inj] at hchars
    rw [hp, hq, hchars.2.2]

/-- Where one label is cut as two, the longer source is the other one or covers it.  Its end cannot
lie within the separator, which does not start with its second character. -/
theorem sameRule_or_covers {more : List Char}
    (hsource : p.effectiveSource.toList = q.effectiveSource.toList ++ more)
    (hbehind : q.behindSource.toList = more ++ p.behindSource.toList) :
    p.SameRule q ∨ p.Covers q := by
  match more with
  | [] =>
    rw [List.append_nil] at hsource
    exact .inl ⟨String.toList_inj.1 hsource,
      effectiveCode_eq_of_behindSource (String.toList_inj.1 hbehind.symm)⟩
  | c :: more =>
    right
    rcases q.behindSource_cases with ⟨-, hqt⟩ | ⟨code, hq, hqt⟩
    · rw [hqt] at hbehind
      cases hbehind
    rw [hqt, List.cons_append, List.cons.injEq] at hbehind
    obtain ⟨rfl, hbehind⟩ := hbehind
    cases more with
    | nil =>
      rcases p.behindSource_cases with ⟨-, hpt⟩ | ⟨_, -, hpt⟩
      · simp [hpt] at hbehind
      · simp [hpt] at hbehind
    | cons d rest =>
      rw [List.cons_append, List.cons.injEq] at hbehind
      obtain ⟨rfl, hcode⟩ := hbehind
      refine ⟨String.ofList rest, ?_, ?_⟩
      · apply String.toList_inj.1
        simp [hsource]
      · rw [hq, Option.some.injEq]
        apply String.toList_inj.1
        simp [hcode]

theorem Covers.ruleLabel_eq (h : p.Covers q) : p.ruleLabel = q.ruleLabel := by
  obtain ⟨rest, hsource, hcode⟩ := h
  have hbehind : q.behindSource = ": " ++ (rest ++ p.behindSource) := by
    rw [behindSource, hcode]
  calc p.ruleLabel
      = p.effectiveSource ++ p.behindSource := p.ruleLabel_eq_append
    _ = q.effectiveSource ++ ": " ++ rest ++ p.behindSource := by rw [hsource]
    _ = q.effectiveSource ++ q.behindSource := by
        rw [hbehind, String.append_assoc, String.append_assoc]
    _ = q.ruleLabel := q.ruleLabel_eq_append.symm

theorem SameRule.ruleLabel_eq (h : p.SameRule q) : p.ruleLabel = q.ruleLabel := by
  rw [ruleLabel, ruleLabel, h.1, h.2]

/-- Two labels are the same for problems of one rule, and where the source of one problem covers
the source of the other. -/
theorem ruleLabel_eq_iff : p.ruleLabel = q.ruleLabel ↔ p.SameRule q ∨ p.Covers q ∨ q.Covers p := by
  constructor
  · intro h
    rw [ruleLabel_eq_append, ruleLabel_eq_append, ← String.toList_inj, String.toList_append,
      String.toList_append, List.append_eq_append_iff] at h
    rcases h with ⟨more, hq, hbehind⟩ | ⟨more, hp, hbehind⟩
    · rcases sameRule_or_covers hq hbehind with hsame | hcovers
      · exact .inl ⟨hsame.1.symm, hsame.2.symm⟩
      · exact .inr (.inr hcovers)
    · exact (sameRule_or_covers hp hbehind).imp_right .inl
  · rintro (h | h | h)
    · exact h.ruleLabel_eq
    · exact h.ruleLabel_eq
    · exact h.ruleLabel_eq.symm

/-- A source that covers another one holds the separator. -/
theorem Covers.separator_infix (h : p.Covers q) : [':', ' '] <:+: p.effectiveSource.toList := by
  obtain ⟨rest, hsource, -⟩ := h
  rw [hsource, String.toList_append, String.toList_append]
  exact ⟨_, _, rfl⟩

end Problem

/-! ## Groups -/

namespace Grouping

/-- Two problems are leaves of one rule group. -/
def InOneRuleGroup (nodes : List Node) (p q : Problem) : Prop :=
  ∃ label children, .ruleGroup label children ∈ nodes ∧
    p ∈ leavesOf children ∧ q ∈ leavesOf children

/-- Among rule groups, problems with one label are in one group. -/
theorem RuleGroups.inOneRuleGroup_iff {ps : List Problem} {nodes : List Node} {p q : Problem}
    (h : RuleGroups ps nodes) :
    InOneRuleGroup nodes p q ↔ p ∈ ps ∧ q ∈ ps ∧ p.ruleLabel = q.ruleLabel := by
  obtain ⟨labels, -, hlabels, rfl⟩ := h
  constructor
  · rintro ⟨label, children, hnode, hp, hq⟩
    obtain ⟨l, -, hl⟩ := List.mem_map.1 hnode
    obtain ⟨rfl, rfl⟩ := Node.ruleGroup.inj hl
    rw [leavesOf_map_leafOf, List.mem_filter, decide_eq_true_eq] at hp hq
    exact ⟨hp.1, hq.1, hp.2.trans hq.2.symm⟩
  · rintro ⟨hp, hq, hlabel⟩
    refine ⟨p.ruleLabel, _, List.mem_map.2 ⟨p.ruleLabel, (hlabels _).2 ⟨p, hp, rfl⟩, rfl⟩, ?_, ?_⟩
    · rw [leavesOf_map_leafOf]
      exact List.mem_filter.2 ⟨hp, decide_eq_true rfl⟩
    · rw [leavesOf_map_leafOf]
      exact List.mem_filter.2 ⟨hq, decide_eq_true hlabel.symm⟩

end Grouping

namespace View

open Grouping

/-- In the mode for rules two of the problems are in one group if they are of one rule, or if the
source of one covers the source of the other.  So the groups are those of the rules as long as no
source holds the separator. -/
theorem same_ruleGroup_iff (ps : List Problem) (root : Path) (p q : Problem) :
    (InOneRuleGroup (arrange ps .rule root).roots p q ↔
      p ∈ ps ∧ q ∈ ps ∧ (p.SameRule q ∨ p.Covers q ∨ q.Covers p)) ∧
      (¬[':', ' '] <:+: p.effectiveSource.toList → ¬[':', ' '] <:+: q.effectiveSource.toList →
        (InOneRuleGroup (arrange ps .rule root).roots p q ↔ p ∈ ps ∧ q ∈ ps ∧ p.SameRule q)) := by
  have hgroups : RuleGroups ps (arrange ps .rule root).roots := arranged_arrange ps .rule root
  rw [hgroups.inOneRuleGroup_iff, Problem.ruleLabel_eq_iff]
  refine ⟨.rfl, fun hp hq => ?_⟩
  have hpq : ¬p.Covers q := fun h => hp h.separator_infix
  have hqp : ¬q.Covers p := fun h => hq h.separator_infix
  simp only [hpq, hqp, or_false]

/-- A problem without source and with an empty code is of the rule of one whose source is `unknown`.
A colon at the end of a source and one at the start of a code do not make a separator. -/
theorem same_ruleGroup_iff_unknown :
    let named (source : String) (code : Option String) : Problem :=
      ⟨⟨"/ws/a.ts"⟩, .point ⟨0, 0⟩, .error, "", source, code⟩
    let roots := (arrange [named "" (some ""), named "ts:" (some "7006"), named "unknown" none,
      named "ts" (some ": 7006")] .rule ⟨"/ws"⟩).roots
    InOneRuleGroup roots (named "" (some "")) (named "unknown" none) ∧
      ¬[':', ' '] <:+: "ts:".toList ∧ ¬[':', ' '] <:+: "ts".toList ∧
      ¬InOneRuleGroup roots (named "ts:" (some "7006")) (named "ts" (some ": 7006")) := by
  intro named roots
  have hcolon : ¬[':', ' '] <:+: "ts:".toList := by decide
  have hplain : ¬[':', ' '] <:+: "ts".toList := by decide
  refine ⟨?_, hcolon, hplain, ?_⟩
  · apply (same_ruleGroup_iff _ _ _ _).1.2
    exact ⟨.head _, by decide, .inl ⟨rfl, rfl⟩⟩
  · rw [(same_ruleGroup_iff _ _ (named "ts:" _) (named "ts" _)).2 hcolon hplain]
    rintro ⟨-, -, hsource, -⟩
    revert hsource
    decide

/-- Two problems of two rules are in one group: one tool names itself `ts: strict` and gives the
number, the other one names itself `ts` and gives the rest with the number. -/
theorem one_ruleGroup_of_two_rules :
    ¬ ∀ (ps : List Problem) (root : Path) (p q : Problem), p ∈ ps → q ∈ ps →
      (InOneRuleGroup (arrange ps .rule root).roots p q ↔ p.SameRule q) := by
  intro h
  let p : Problem := ⟨⟨"/ws/a.ts"⟩, .point ⟨0, 0⟩, .error, "", "ts: strict", some "7006"⟩
  let q : Problem := ⟨⟨"/ws/a.ts"⟩, .point ⟨0, 0⟩, .error, "", "ts", some "strict: 7006"⟩
  have hgroups : RuleGroups [p, q] (arrange [p, q] .rule ⟨"/ws"⟩).roots :=
    arranged_arrange [p, q] .rule ⟨"/ws"⟩
  have hone : InOneRuleGroup (arrange [p, q] .rule ⟨"/ws"⟩).roots p q :=
    hgroups.inOneRuleGroup_iff.2 ⟨.head _, .tail _ (.head _), by decide⟩
  have hsame : p.SameRule q := (h [p, q] ⟨"/ws"⟩ p q (.head _) (.tail _ (.head _))).1 hone
  exact absurd hsame.1 (by decide)

end View

end ProblemBoard
