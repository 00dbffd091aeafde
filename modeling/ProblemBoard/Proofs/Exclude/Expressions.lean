import ProblemBoard.Exclude.Matcher
import ProblemBoard.Exclude.Regex
import ProblemBoard.Proofs.Exclude.Acceptance

/-!
# Patterns and their regular expressions

A pattern fits a text just if its regular expression matches the text from the first to the last
character, `Pattern.fits_iff_matches`.  A token leaves to the tokens behind it what its own
expression does not match, and the pattern follows by induction on the tokens.
-/

namespace ProblemBoard.Exclude

/-! ## What expressions match -/

namespace Expr

variable {d e : Expr} {cs : List Char}

theorem matches_empty_iff : Matches .empty cs ↔ cs = [] := by
  constructor
  · rintro ⟨⟩
    rfl
  · rintro rfl
    exact .empty

theorem matches_literal_iff {c : Char} : Matches (.literal c) cs ↔ cs = [c] := by
  constructor
  · rintro ⟨⟩
    rfl
  · rintro rfl
    exact .literal

theorem matches_run_iff {set : CharSet} :
    Matches (.run set) cs ↔ ∀ c ∈ cs, set.holds c = true := by
  constructor
  · rintro ⟨⟩
    assumption
  · exact .run

theorem matches_optional_iff : Matches (.optional e) cs ↔ cs = [] ∨ Matches e cs := by
  constructor
  · intro h
    cases h with
    | skip => exact .inl rfl
    | take h => exact .inr h
  · rintro (rfl | h)
    · exact .skip
    · exact .take h

theorem matches_seq_iff :
    Matches (.seq d e) cs ↔
      ∃ front rest, cs = front ++ rest ∧ Matches d front ∧ Matches e rest := by
  constructor
  · intro h
    cases h with
    | seq hd he => exact ⟨_, _, rfl, hd, he⟩
  · rintro ⟨front, rest, rfl, hd, he⟩
    exact .seq hd he

theorem matches_notFeed_iff : Matches (.run .notFeed) cs ↔ '\n' ∉ cs := by
  rw [matches_run_iff]
  simp only [CharSet.holds, bne_iff_ne]
  exact ⟨fun h hmem => h _ hmem rfl, fun h c hc heq => h (heq ▸ hc)⟩

end Expr

/-! ## Tokens -/

namespace Pattern

/-- A token takes what its expression matches, and leaves the rest. -/
theorem tokenThen_iff_matches {k : List Char → Bool} {t : Token} {cs : List Char} :
    tokenThen k t cs = true ↔
      ∃ front rest, cs = front ++ rest ∧ t.expr.Matches front ∧ k rest = true := by
  cases t with
  | anyFolders =>
    simp only [tokenThen, Bool.or_eq_true, foldersThen_iff, Token.expr,
      Expr.matches_optional_iff, Expr.matches_seq_iff, Expr.matches_notFeed_iff,
      Expr.matches_literal_iff]
    constructor
    · rintro (hk | ⟨front, rest, rfl, hfront, hk⟩)
      · exact ⟨[], cs, rfl, .inl rfl, hk⟩
      · exact ⟨front ++ ['/'], rest, by simp, .inr ⟨front, _, rfl, hfront, rfl⟩, hk⟩
    · rintro ⟨_, rest, rfl, rfl | ⟨front, _, rfl, hfront, rfl⟩, hk⟩
      · exact .inl hk
      · exact .inr ⟨front, rest, by simp, hfront, hk⟩
  | anyTail =>
    simp only [Token.expr, Expr.matches_optional_iff, Expr.matches_seq_iff,
      Expr.matches_notFeed_iff, Expr.matches_literal_iff]
    constructor
    · intro h
      cases cs with
      | nil =>
        rw [tokenThen, Bool.or_false] at h
        exact ⟨[], [], rfl, .inl rfl, h⟩
      | cons c cs =>
        simp only [tokenThen, Bool.or_eq_true, Bool.and_eq_true, beq_iff_eq, starThen_iff,
          bne_iff_ne] at h
        rcases h with hk | ⟨rfl, run, rest, rfl, hrun, hk⟩
        · exact ⟨[], c :: cs, rfl, .inl rfl, hk⟩
        · exact ⟨'/' :: run, rest, rfl,
            .inr ⟨['/'], run, rfl, rfl, fun hmem => hrun _ hmem rfl⟩, hk⟩
    · rintro ⟨_, rest, rfl, rfl | ⟨_, run, rfl, rfl, hrun⟩, hk⟩
      · exact Bool.or_eq_true_iff.2 (.inl hk)
      · simp only [tokenThen, List.cons_append, Bool.or_eq_true,
          Bool.and_eq_true, beq_iff_eq, starThen_iff, bne_iff_ne]
        exact .inr ⟨trivial, run, rest, rfl, fun c hc heq => hrun (heq ▸ hc), hk⟩
  | anything =>
    simp only [tokenThen, starThen_iff, Token.expr, Expr.matches_run_iff]
    rfl
  | segmentRun =>
    simp only [tokenThen, starThen_iff, Token.expr, Expr.matches_run_iff]
    rfl
  | literal c =>
    simp only [Token.expr, Expr.matches_literal_iff]
    cases cs with
    | nil => simp [tokenThen]
    | cons d cs =>
      simp only [tokenThen, Bool.and_eq_true, beq_iff_eq]
      constructor
      · rintro ⟨rfl, hk⟩
        exact ⟨[c], cs, rfl, rfl, hk⟩
      · rintro ⟨_, rest, heq, rfl, hk⟩
        obtain ⟨rfl, rfl⟩ := List.cons.inj heq
        exact ⟨rfl, hk⟩

/-- A pattern fits a text just if its regular expression matches all of it. -/
theorem fits_iff_matches {p : Pattern} {cs : List Char} :
    p.fits cs = true ↔ p.expr.Matches cs := by
  rw [fits_eq_accepts]
  induction p generalizing cs with
  | nil => rw [accepts, expr, Expr.matches_empty_iff, List.isEmpty_iff]
  | cons t ts ih => simp only [accepts, expr, tokenThen_iff_matches, Expr.matches_seq_iff, ih]

end Pattern

/-- A label is excluded just if the regular expression of some pattern matches it. -/
theorem excludes_iff_matches {patterns : List Pattern} {label : String} :
    excludes patterns label = true ↔ ∃ p ∈ patterns, p.expr.Matches label.toList := by
  simp only [excludes, List.any_eq_true, Pattern.fits_iff_matches]

end ProblemBoard.Exclude
