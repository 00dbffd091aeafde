import Mathlib.Data.List.Infix
import ProblemBoard.Exclude.Matcher
import ProblemBoard.Proofs.Exclude.Acceptance
import ProblemBoard.Text.Split

/-!
# Patterns match segment by segment

A pattern is read character by character, but it means something about segments: `**` stands for
any number of them, and every other segment of the pattern for one segment of the path.
`excludes_iff_segmentsFit` says that the two agree.

The induction is on the segments of the pattern.  The one case that needs a condition is a segment
with only `**` behind it, which may stand at the end of the path: a single `/**` at the end takes
the separator with it, but of two the first one asks for a separator.
-/

namespace ProblemBoard.Exclude

open Text Pattern

/-- The segments of a pattern fit the segments of a path, in order. -/
inductive SegmentsFit : List (List Char) → List (List Char) → Prop
  | nil : SegmentsFit [] []
  | any {ps ss : List (List Char)} (front : List (List Char)) :
      SegmentsFit ps ss → SegmentsFit (anySegments :: ps) (front ++ ss)
  | segment {p s : List Char} {ps ss : List (List Char)} :
      p ≠ anySegments → SegmentFits p s → SegmentsFit ps ss → SegmentsFit (p :: ps) (s :: ss)

/-- A pattern without blanks at its ends, in which `**` stands for whole segments only.  It does
not end in two of them behind another segment. -/
structure Segmented (pattern : List Char) : Prop where
  nonempty : pattern ≠ []
  trimmed : Trimmed pattern
  whole : ∀ p ∈ split '/' pattern, anySegments <:+: p → p = anySegments
  tail : ¬('/' :: anySegments ++ '/' :: anySegments <:+ pattern)

instance (pattern : List Char) : Decidable (Segmented pattern) :=
  decidable_of_iff
    (pattern ≠ [] ∧ Trimmed pattern ∧
      (∀ p ∈ split '/' pattern, anySegments <:+: p → p = anySegments) ∧
      ¬('/' :: anySegments ++ '/' :: anySegments <:+ pattern))
    ⟨fun h => ⟨h.1, h.2.1, h.2.2.1, h.2.2.2⟩,
      fun h => ⟨h.nonempty, h.trimmed, h.whole, h.tail⟩⟩

/-! ## Segments in order -/

section
variable {p : List Char} {ps ss : List (List Char)}

theorem segmentsFit_any_iff :
    SegmentsFit (anySegments :: ps) ss ↔
      ∃ front rest, ss = front ++ rest ∧ SegmentsFit ps rest := by
  constructor
  · intro h
    cases h with
    | any front h => exact ⟨front, _, rfl, h⟩
    | segment hne => exact absurd rfl hne
  · rintro ⟨front, rest, rfl, h⟩
    exact .any front h

theorem segmentsFit_cons_iff (hp : p ≠ anySegments) :
    SegmentsFit (p :: ps) ss ↔
      ∃ s rest, ss = s :: rest ∧ SegmentFits p s ∧ SegmentsFit ps rest := by
  constructor
  · intro h
    cases h with
    | any => exact absurd rfl hp
    | segment _ hs hrest => exact ⟨_, _, rfl, hs, hrest⟩
  · rintro ⟨s, rest, rfl, hs, hrest⟩
    exact .segment hp hs hrest

theorem segmentsFit_nil_iff : SegmentsFit [] ss ↔ ss = [] := by
  constructor
  · intro h
    cases h
    rfl
  · rintro rfl
    exact .nil

/-- Only `**` fits where there is no segment. -/
theorem SegmentsFit.eq_any (h : SegmentsFit ps []) : ∀ p ∈ ps, p = anySegments := by
  induction ps with
  | nil => exact fun _ hp => absurd hp List.not_mem_nil
  | cons p ps ih =>
    by_cases hp : p = anySegments
    · subst hp
      obtain ⟨front, rest, hss, hfit⟩ := segmentsFit_any_iff.1 h
      obtain ⟨-, rfl⟩ := List.append_eq_nil_iff.1 hss.symm
      exact List.forall_mem_cons.2 ⟨rfl, ih hfit⟩
    · obtain ⟨s, rest, hss, -⟩ := (segmentsFit_cons_iff hp).1 h
      cases hss

theorem segmentsFit_any_nil (ss : List (List Char)) : SegmentsFit [anySegments] ss := by
  rw [segmentsFit_any_iff]
  exact ⟨ss, [], (List.append_nil ss).symm, .nil⟩

/-- `**` alone fits whatever there is. -/
theorem segmentsFit_of_eq_any (hne : ps ≠ []) (h : ∀ p ∈ ps, p = anySegments) :
    SegmentsFit ps ss := by
  induction ps with
  | nil => exact absurd rfl hne
  | cons p ps ih =>
    obtain ⟨rfl, hps⟩ := List.forall_mem_cons.1 h
    cases ps with
    | nil => exact segmentsFit_any_nil ss
    | cons q qs => exact .any [] (ih (List.cons_ne_nil _ _) hps)

end

/-! ## Segments of a text -/

section
variable {p cs : List Char} {ps : List (List Char)}

/-- What stands behind `**` fits the whole text, or what is behind one of its separators. -/
theorem segmentsFit_any_split_iff (hps : ps ≠ []) :
    SegmentsFit (anySegments :: ps) (split '/' cs) ↔
      SegmentsFit ps (split '/' cs) ∨
        ∃ front rest, cs = front ++ '/' :: rest ∧ SegmentsFit ps (split '/' rest) := by
  rw [segmentsFit_any_iff]
  constructor
  · rintro ⟨front, rest, hcs, hfit⟩
    by_cases hrest : rest = []
    · subst hrest
      exact .inl (segmentsFit_of_eq_any hps hfit.eq_any)
    by_cases hfront : front = []
    · subst hfront
      rw [hcs]
      exact .inl hfit
    · obtain ⟨f, r, rfl, -, rfl⟩ := (split_eq_append_iff hfront hrest).1 hcs
      exact .inr ⟨f, r, rfl, hfit⟩
  · rintro (hfit | ⟨front, rest, rfl, hfit⟩)
    · exact ⟨[], _, rfl, hfit⟩
    · exact ⟨_, _, split_append '/' front rest, hfit⟩

/-- A segment fits the text up to its first separator. -/
theorem segmentsFit_cons_split_iff (hp : p ≠ anySegments) :
    SegmentsFit (p :: ps) (split '/' cs) ↔
      ∃ s, '/' ∉ s ∧ SegmentFits p s ∧
        (cs = s ∧ SegmentsFit ps [] ∨
          ∃ rest, cs = s ++ '/' :: rest ∧ SegmentsFit ps (split '/' rest)) := by
  rw [segmentsFit_cons_iff hp]
  constructor
  · rintro ⟨s, _, hcs, hs, hfit⟩
    obtain ⟨hslash, ⟨rfl, rfl⟩ | ⟨rest, rfl, rfl⟩⟩ := split_eq_cons_iff.1 hcs
    · exact ⟨cs, hslash, hs, .inl ⟨rfl, hfit⟩⟩
    · exact ⟨s, hslash, hs, .inr ⟨rest, rfl, hfit⟩⟩
  · rintro ⟨s, hslash, hs, ⟨rfl, hfit⟩ | ⟨rest, rfl, hfit⟩⟩
    · exact ⟨cs, [], split_of_not_mem hslash, hs, hfit⟩
    · exact ⟨s, _, split_append_of_not_mem hslash rest, hs, hfit⟩

end

/-! ## Patterns -/

/-- A segment of a pattern takes a text up to its first separator.  What it leaves is for the rest
of the pattern: nothing, or a separator and the segments behind it. -/
theorem accepts_segment_append_iff {p cs : List Char} {ps : List (List Char)} {ts : Pattern}
    (hp : p ≠ anySegments) (hslash : '/' ∉ p) (hline : '\n' ∉ cs)
    (hts : ∀ rest, '\n' ∉ rest → (ts.accepts rest = true ↔
      rest = [] ∧ SegmentsFit ps [] ∨
        ∃ r, rest = '/' :: r ∧ SegmentsFit ps (split '/' r))) :
    accepts (p.map segmentToken ++ ts) cs = true ↔ SegmentsFit (p :: ps) (split '/' cs) := by
  rw [accepts_segment_iff hslash, segmentsFit_cons_split_iff hp]
  constructor
  · rintro ⟨s, rest, rfl, hs, hfit, hrest⟩
    rw [List.mem_append, not_or] at hline
    rcases (hts rest hline.2).1 hrest with ⟨rfl, hps⟩ | ⟨r, rfl, hps⟩
    · exact ⟨s, hs, hfit, .inl ⟨List.append_nil s, hps⟩⟩
    · exact ⟨s, hs, hfit, .inr ⟨r, rfl, hps⟩⟩
  · rintro ⟨s, hs, hfit, ⟨rfl, hps⟩ | ⟨r, rfl, hps⟩⟩
    · exact ⟨cs, [], (List.append_nil cs).symm, hs, hfit,
        (hts [] List.not_mem_nil).2 (.inl ⟨rfl, hps⟩)⟩
    · rw [List.mem_append, not_or] at hline
      exact ⟨s, '/' :: r, rfl, hs, hfit, (hts _ hline.2).2 (.inr ⟨r, rfl, hps⟩)⟩

/-- Two `**` at the end behind another segment are two at the end of the text. -/
theorem suffix_of_split_eq {P : List Char} {front : List (List Char)} (hfront : front ≠ [])
    (h : split '/' P = front ++ [anySegments, anySegments]) :
    '/' :: anySegments ++ '/' :: anySegments <:+ P := by
  obtain ⟨f, r, rfl, -, hr⟩ := (split_eq_append_iff hfront (List.cons_ne_nil _ _)).1 h
  obtain ⟨-, ⟨-, hnil⟩ | ⟨r', rfl, hr'⟩⟩ := split_eq_cons_iff.1 hr
  · cases hnil
  · obtain ⟨-, ⟨rfl, -⟩ | ⟨_, -, hnil⟩⟩ := split_eq_cons_iff.1 hr'
    · exact List.suffix_append f _
    · exact absurd hnil (split_ne_nil _ _)

/-- Where every segment is `**` there are at least two at the end, or there is only one. -/
theorem exists_eq_append_of_eq_any {R : List Char} {ps : List (List Char)} (hR : split '/' R = ps)
    (hne : R ≠ anySegments) (h : ∀ p ∈ ps, p = anySegments) :
    ∃ front, ps = front ++ [anySegments, anySegments] := by
  have hall : ps = List.replicate ps.length anySegments := List.eq_replicate_iff.2 ⟨rfl, h⟩
  match hlen : ps.length with
  | 0 =>
    rw [List.length_eq_zero_iff] at hlen
    exact absurd (hR.trans hlen) (split_ne_nil '/' R)
  | 1 =>
    rw [hlen] at hall
    obtain ⟨-, ⟨rfl, -⟩ | ⟨_, -, hnil⟩⟩ := split_eq_cons_iff.1 (hR.trans hall)
    · exact absurd rfl hne
    · exact absurd hnil (split_ne_nil _ _)
  | n + 2 =>
    have htwo : List.replicate n anySegments ++ List.replicate 2 anySegments =
        List.replicate (n + 2) anySegments := List.replicate_append_replicate
    rw [hlen] at hall
    exact ⟨List.replicate n anySegments, hall.trans htwo.symm⟩

/-- A pattern of whole segments accepts what its segments fit, by induction on the segments.  The
last one stands alone; every other one goes with the separator behind it, but for a `**` at the end,
which takes the separator in front of it. -/
theorem accepts_ofChars_iff {P cs : List Char} (hline : '\n' ∉ cs)
    (hwhole : ∀ p ∈ split '/' P, anySegments <:+: p → p = anySegments)
    (htail : ∀ front, front ≠ [] → split '/' P ≠ front ++ [anySegments, anySegments]) :
    (ofChars P).accepts cs = true ↔ SegmentsFit (split '/' P) (split '/' cs) := by
  generalize hsplit : split '/' P = ps at hwhole htail ⊢
  induction ps generalizing P cs with
  | nil => exact absurd hsplit (split_ne_nil '/' P)
  | cons p ps ih =>
    obtain ⟨hp, hwhole⟩ := List.forall_mem_cons.1 hwhole
    obtain ⟨hslash, ⟨rfl, rfl⟩ | ⟨R, rfl, hR⟩⟩ := split_eq_cons_iff.1 hsplit
    · by_cases hany : P = anySegments
      · subst hany
        exact ⟨fun _ => segmentsFit_any_nil _, fun _ => accepts_anything_iff.2 hline⟩
      · have hread : ofChars P = P.map segmentToken ++ ofChars [] := by
          rw [← ofChars_segment hslash (mt hp hany) rfl, List.append_nil]
        rw [hread]
        refine accepts_segment_append_iff hany hslash hline fun rest _ => ?_
        simp [ofChars, accepts, segmentsFit_nil_iff, split_ne_nil]
    · have hps : ps ≠ [] := hR ▸ split_ne_nil '/' R
      have ih {cs : List Char} (hline : '\n' ∉ cs) :
          (ofChars R).accepts cs = true ↔ SegmentsFit ps (split '/' cs) := by
        refine ih hline hR hwhole fun front _ h => ?_
        exact htail (p :: front) (List.cons_ne_nil _ _) (congrArg (p :: ·) h)
      by_cases hany : p = anySegments
      · subst hany
        rw [ofChars_anyFolders, accepts_anyFolders_iff, segmentsFit_any_split_iff hps, ih hline]
        refine or_congr_right (exists_congr fun front => exists_congr fun rest => ?_)
        refine and_congr_right ?_
        rintro rfl
        rw [List.mem_append, List.mem_cons, not_or, not_or] at hline
        rw [ih hline.2.2, and_iff_right hline.1]
      · rw [ofChars_segment hslash (mt hp hany) rfl]
        refine accepts_segment_append_iff hany hslash hline fun rest hrest => ?_
        by_cases hlast : R = anySegments
        · subst hlast
          obtain rfl : [anySegments] = ps := hR
          have hread : ofChars ('/' :: anySegments) = [.anyTail] := rfl
          rw [hread, accepts_anyTail_iff]
          simp only [segmentsFit_any_nil, and_true]
          refine or_congr_right (exists_congr fun r => and_iff_left_of_imp ?_)
          rintro rfl hmem
          exact hrest (.tail _ hmem)
        · rw [ofChars_literal (by decide) fun _ => hlast, accepts_literal_iff]
          have hnil : ¬SegmentsFit ps [] := by
            intro h
            obtain ⟨front, hfront⟩ := exists_eq_append_of_eq_any hR hlast h.eq_any
            exact htail (p :: front) (List.cons_ne_nil _ _) (congrArg (p :: ·) hfront)
          simp only [hnil, and_false, false_or]
          refine exists_congr fun r => and_congr_right ?_
          rintro rfl
          exact ih fun hmem => hrest (.tail _ hmem)

/-- A label is excluded by the patterns that are not blank, without the blanks at their ends. -/
theorem excludes_ofTexts_iff {patterns : List String} {label : String} :
    excludes (ofTexts patterns) label = true ↔
      ∃ t ∈ patterns, trimChars t.toList ≠ [] ∧
        (ofChars (trimChars t.toList)).accepts label.toList = true := by
  simp only [excludes, ofTexts, List.any_eq_true, List.mem_map, List.mem_filter]
  constructor
  · rintro ⟨_, ⟨cs, ⟨⟨t, ht, rfl⟩, hne⟩, rfl⟩, hfits⟩
    rw [fits_eq_accepts] at hfits
    exact ⟨t, ht, by simpa using hne, hfits⟩
  · rintro ⟨t, ht, hne, haccepts⟩
    rw [← fits_eq_accepts] at haccepts
    exact ⟨_, ⟨_, ⟨⟨t, ht, rfl⟩, by simpa using hne⟩, rfl⟩, haccepts⟩

/-- A pattern excludes the labels whose segments fit its own, and of several patterns each one that
is not blank is asked. -/
theorem excludes_iff_segmentsFit :
    (∀ pattern label : String, Segmented pattern.toList → '\n' ∉ label.toList →
      (excludes (ofTexts [pattern]) label = true ↔
        SegmentsFit (split '/' pattern.toList) (split '/' label.toList))) ∧
      ∀ (patterns : List String) (label : String),
        excludes (ofTexts patterns) label = true ↔
          ∃ t ∈ patterns, allBlank t.toList = false ∧ excludes (ofTexts [t]) label = true := by
  constructor
  · intro pattern label hp hline
    rw [excludes_ofTexts_iff]
    simp only [List.mem_singleton, exists_eq_left, hp.trimmed.trimChars_eq]
    rw [accepts_ofChars_iff hline hp.whole fun front hfront h =>
      hp.tail (suffix_of_split_eq hfront h)]
    exact and_iff_right hp.nonempty
  · intro patterns label
    simp only [excludes_ofTexts_iff]
    refine exists_congr fun t => and_congr_right fun _ => ?_
    rw [← Bool.not_eq_true, ← trimChars_eq_nil_iff]
    simp

/-- A pattern with `**` at both ends and between, and with a `*` in a name.  It fits a path that
has no directory where the pattern has `**`, and does not fit one with another ending. -/
theorem excludes_iff_segmentsFit_generated :
    Segmented "**/src/**/*.gen.ts/**".toList ∧
      excludes (ofTexts ["**/src/**/*.gen.ts/**"]) "src/api.gen.ts" = true ∧
      SegmentsFit [anySegments, "src".toList, anySegments, "*.gen.ts".toList, anySegments]
        ["src".toList, "api.gen.ts".toList] ∧
      excludes (ofTexts ["**/src/**/*.gen.ts/**"]) "a/src/b/apixgen.ts" = false ∧
      ¬SegmentsFit [anySegments, "src".toList, anySegments, "*.gen.ts".toList, anySegments]
        ["a".toList, "src".toList, "b".toList, "apixgen.ts".toList] := by
  have hpattern : Segmented "**/src/**/*.gen.ts/**".toList := by decide
  have hyes : excludes (ofTexts ["**/src/**/*.gen.ts/**"]) "src/api.gen.ts" = true := by decide
  have hno : excludes (ofTexts ["**/src/**/*.gen.ts/**"]) "a/src/b/apixgen.ts" = false := by decide
  refine ⟨hpattern, hyes, ?_, hno, ?_⟩
  · exact (excludes_iff_segmentsFit.1 _ _ hpattern (by decide)).1 hyes
  · intro hfit
    have hyes := (excludes_iff_segmentsFit.1 _ "a/src/b/apixgen.ts" hpattern (by decide)).2 hfit
    exact absurd hyes (by rw [hno]; decide)

end ProblemBoard.Exclude
