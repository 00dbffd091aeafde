import ProblemBoard.Path.Label
import ProblemBoard.Proofs.Exclude.Segments

/-!
# Excluded directories

The pattern `**/d/**` is meant for all that lies in a directory `d`, wherever it stands.
`directory_excluded_iff` says which labels it excludes: those with a segment `d` and without a line
feed in the segments around it.  `**` does not go past a line feed, so a file whose name holds one
is not excluded with its directory, nor is a file in a subdirectory of such a name.
-/

namespace ProblemBoard.Exclude

open Text Pattern

/-- The pattern for all that lies in a directory of the given name. -/
def directoryPattern (d : String) : String := "**/" ++ d ++ "/**"

/-- Without wildcards a segment fits only itself. -/
theorem segmentFits_iff_of_not_mem {seg s : List Char} (h : '*' ∉ seg) :
    SegmentFits seg s ↔ s = seg := by
  induction seg generalizing s with
  | nil =>
    constructor
    · rintro ⟨⟩
      rfl
    · rintro rfl
      exact .nil
  | cons c seg ih =>
    rw [List.mem_cons, not_or] at h
    constructor
    · intro hfit
      cases hfit with
      | run => exact absurd rfl h.1
      | char _ hfit => rw [(ih h.2).1 hfit]
    · rintro rfl
      exact .char (Ne.symm h.1) ((ih h.2).2 rfl)

theorem forall_mem_split_iff {cs : List Char} : (∀ s ∈ split '/' cs, '\n' ∉ s) ↔ '\n' ∉ cs := by
  have hsep : '\n' ≠ '/' := by decide
  rw [mem_iff_exists_mem_split hsep]
  simp

section
variable {d : List Char} (hslash : '/' ∉ d) (hstar : '*' ∉ d)
include hslash hstar

/-- A name, and whatever lies below it. -/
theorem accepts_segment_anyTail_iff {cs : List Char} :
    accepts (d.map segmentToken ++ [.anyTail]) cs = true ↔
      ∃ below, split '/' cs = d :: below ∧ ∀ s ∈ below, '\n' ∉ s := by
  rw [accepts_segment_iff hslash]
  constructor
  · rintro ⟨s, rest, rfl, -, hfit, hrest⟩
    obtain rfl := (segmentFits_iff_of_not_mem hstar).1 hfit
    rcases accepts_anyTail_iff.1 hrest with rfl | ⟨r, rfl, hr⟩
    · rw [List.append_nil, split_of_not_mem hslash]
      exact ⟨[], rfl, by simp⟩
    · rw [split_append_of_not_mem hslash]
      exact ⟨_, rfl, forall_mem_split_iff.2 hr⟩
  · rintro ⟨below, hcs, hbelow⟩
    have hfit : SegmentFits d d := (segmentFits_iff_of_not_mem hstar).2 rfl
    obtain ⟨-, ⟨rfl, rfl⟩ | ⟨r, rfl, rfl⟩⟩ := split_eq_cons_iff.1 hcs
    · exact ⟨cs, [], (List.append_nil cs).symm, hslash, hfit, accepts_anyTail_iff.2 (.inl rfl)⟩
    · exact ⟨d, _, rfl, hslash, hfit,
        accepts_anyTail_iff.2 (.inr ⟨r, rfl, forall_mem_split_iff.1 hbelow⟩)⟩

/-- A name below any directories, and whatever lies below it. -/
theorem accepts_directory_iff {cs : List Char} :
    accepts (.anyFolders :: (d.map segmentToken ++ [.anyTail])) cs = true ↔
      ∃ above below, split '/' cs = above ++ d :: below ∧ ∀ s ∈ above ++ below, '\n' ∉ s := by
  simp only [accepts_anyFolders_iff, accepts_segment_anyTail_iff hslash hstar,
    List.forall_mem_append]
  constructor
  · rintro (⟨below, hcs, hbelow⟩ | ⟨front, rest, rfl, hfront, below, hrest, hbelow⟩)
    · exact ⟨[], below, hcs, by simp, hbelow⟩
    · rw [split_append, hrest]
      exact ⟨_, below, rfl, forall_mem_split_iff.2 hfront, hbelow⟩
  · rintro ⟨above, below, hcs, habove, hbelow⟩
    by_cases hnil : above = []
    · subst hnil
      exact .inl ⟨below, hcs, hbelow⟩
    · obtain ⟨front, rest, rfl, rfl, hrest⟩ :=
        (split_eq_append_iff hnil (List.cons_ne_nil _ _)).1 hcs
      exact .inr ⟨front, rest, rfl, forall_mem_split_iff.1 habove, below, hrest, hbelow⟩

theorem ofChars_directoryPattern :
    ofChars (anySegments ++ '/' :: (d ++ '/' :: anySegments)) =
      .anyFolders :: (d.map segmentToken ++ [.anyTail]) := by
  have hstars : ¬anySegments <:+: d := fun h => hstar (h.subset (.head _))
  rw [ofChars_anyFolders, ofChars_segment hslash hstars rfl]
  rfl

end

theorem toList_directoryPattern (d : String) :
    (directoryPattern d).toList = anySegments ++ '/' :: (d.toList ++ '/' :: anySegments) := by
  simp [directoryPattern, anySegments]

/-- No blanks are cut off the pattern, whatever the name of the directory. -/
theorem trimmed_directoryPattern (d : String) : Trimmed (directoryPattern d).toList := by
  rw [toList_directoryPattern]
  refine ⟨rfl, ?_⟩
  have hlast : ∀ front : List Char, (front ++ '/' :: anySegments).getLast? = some '*' := by
    simp [anySegments]
  rw [List.append_cons, ← List.append_assoc, hlast]
  rfl

/-- A label is excluded with a directory if the directory is one of its segments and no other
segment holds a line feed.  So of labels without line feeds exactly those are excluded that go
through the directory. -/
theorem directory_excluded_iff {d : String} (hslash : '/' ∉ d.toList) (hstar : '*' ∉ d.toList)
    (label : String) :
    (excludes (ofTexts [directoryPattern d]) label = true ↔
      ∃ above below, split '/' label.toList = above ++ d.toList :: below ∧
        ∀ s ∈ above ++ below, '\n' ∉ s) ∧
      ('\n' ∉ label.toList →
        (excludes (ofTexts [directoryPattern d]) label = true ↔
          d.toList ∈ split '/' label.toList)) := by
  have hexcludes : excludes (ofTexts [directoryPattern d]) label = true ↔
      ∃ above below, split '/' label.toList = above ++ d.toList :: below ∧
        ∀ s ∈ above ++ below, '\n' ∉ s := by
    rw [excludes_ofTexts_iff]
    simp only [List.mem_singleton, exists_eq_left, (trimmed_directoryPattern d).trimChars_eq]
    rw [toList_directoryPattern, ofChars_directoryPattern hslash hstar,
      accepts_directory_iff hslash hstar]
    exact and_iff_right (List.append_ne_nil_of_left_ne_nil (List.cons_ne_nil _ _) _)
  refine ⟨hexcludes, fun hline => ?_⟩
  rw [hexcludes, List.mem_iff_append]
  refine exists_congr fun above => exists_congr fun below => and_iff_left_of_imp fun hsplit => ?_
  intro s hs
  apply forall_mem_split_iff.2 hline
  rw [hsplit]
  rcases List.mem_append.1 hs with hs | hs
  · exact List.mem_append_left _ hs
  · exact List.mem_append_right _ (.tail _ hs)

/-- A directory with a line feed and a blank in its own name, outside of the workspace: a file in
it is excluded, and one below a directory of another name is not. -/
theorem directory_excluded_iff_outside :
    '/' ∉ " b\nc".toList ∧ '*' ∉ " b\nc".toList ∧
      Path.label ⟨"/ws"⟩ ⟨"/opt/ b\nc//x.ts"⟩ = "/opt/ b\nc/x.ts" ∧
      excludes (ofTexts [directoryPattern " b\nc"]) "/opt/ b\nc/x.ts" = true ∧
      Path.label ⟨"/ws"⟩ ⟨"/ws/b/c/ b.ts"⟩ = "b/c/ b.ts" ∧ '\n' ∉ "b/c/ b.ts".toList ∧
      excludes (ofTexts [directoryPattern " b\nc"]) "b/c/ b.ts" = false := by
  have hslash : '/' ∉ " b\nc".toList := by decide
  have hstar : '*' ∉ " b\nc".toList := by decide
  have hline : '\n' ∉ "b/c/ b.ts".toList := by decide
  refine ⟨hslash, hstar, by decide, ?_, by decide, hline, ?_⟩
  · apply (directory_excluded_iff hslash hstar _).1.2
    exact ⟨["".toList, "opt".toList], ["x.ts".toList], by decide, by decide⟩
  · apply Bool.eq_false_iff.2
    rw [Ne, (directory_excluded_iff hslash hstar _).2 hline]
    decide

/-- A file whose name holds a line feed stays when its directory is excluded. -/
theorem file_with_line_feed_not_excluded :
    ¬ ∀ (d : String) (root path : Path), d ≠ "" → '/' ∉ d.toList → '*' ∉ d.toList →
      root.isAbsolute = true → path.isAbsolute = true →
        (excludes (ofTexts [directoryPattern d]) (root.label path) = true ↔
          d.toList ∈ split '/' (root.label path).toList) := by
  intro h
  have hdist := h "dist" ⟨"/ws"⟩ ⟨"/ws/dist/a\nb.ts"⟩
    (by decide) (by decide) (by decide) (by decide) (by decide)
  have hlabel : Path.label ⟨"/ws"⟩ ⟨"/ws/dist/a\nb.ts"⟩ = "dist/a\nb.ts" := by decide
  rw [hlabel] at hdist
  revert hdist
  decide

end ProblemBoard.Exclude
