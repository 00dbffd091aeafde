import ProblemBoard.Exclude.Pattern

/-!
# What patterns accept

Each token accepts a text as far as it reaches, and leaves the rest to the tokens behind it.  The
lemmas here say where a text is cut.

A segment of a pattern is read on its own: `ofChars_segment` gives its tokens, and
`accepts_segment_iff` what they accept, which is always a text without separators.
-/

namespace ProblemBoard.Exclude

/-- `**` in a pattern. -/
def anySegments : List Char := ['*', '*']

/-- A segment of a pattern fits a segment of a path: `*` stands for any run of characters, and
every other character for itself. -/
inductive SegmentFits : List Char → List Char → Prop
  | nil : SegmentFits [] []
  | run {seg s : List Char} (run : List Char) :
      SegmentFits seg s → SegmentFits ('*' :: seg) (run ++ s)
  | char {c : Char} {seg s : List Char} :
      c ≠ '*' → SegmentFits seg s → SegmentFits (c :: seg) (c :: s)

namespace Pattern

/-! ## Single tokens -/

theorem starThen_iff {p : Char → Bool} {k : List Char → Bool} {cs : List Char} :
    starThen p k cs = true ↔
      ∃ run rest, cs = run ++ rest ∧ (∀ c ∈ run, p c = true) ∧ k rest = true := by
  induction cs with
  | nil =>
    simp only [starThen, List.nil_eq_append_iff]
    constructor
    · intro h
      exact ⟨[], [], ⟨rfl, rfl⟩, by simp, h⟩
    · rintro ⟨_, _, ⟨rfl, rfl⟩, -, hk⟩
      exact hk
  | cons c cs ih =>
    rw [starThen, Bool.or_eq_true, Bool.and_eq_true, ih]
    constructor
    · rintro (hk | ⟨hc, run, rest, rfl, hrun, hk⟩)
      · exact ⟨[], c :: cs, rfl, by simp, hk⟩
      · exact ⟨c :: run, rest, rfl, List.forall_mem_cons.2 ⟨hc, hrun⟩, hk⟩
    · rintro ⟨run, rest, heq, hrun, hk⟩
      cases run with
      | nil =>
        rw [List.nil_append] at heq
        exact .inl (heq ▸ hk)
      | cons d run =>
        obtain ⟨rfl, rfl⟩ := List.cons.inj heq
        obtain ⟨hc, hrun⟩ := List.forall_mem_cons.1 hrun
        exact .inr ⟨hc, run, rest, rfl, hrun, hk⟩

theorem foldersThen_iff {k : List Char → Bool} {cs : List Char} :
    foldersThen k cs = true ↔
      ∃ front rest, cs = front ++ '/' :: rest ∧ '\n' ∉ front ∧ k rest = true := by
  induction cs with
  | nil => simp [foldersThen]
  | cons c cs ih =>
    simp only [foldersThen, Bool.or_eq_true, Bool.and_eq_true, beq_iff_eq, bne_iff_ne, ih]
    constructor
    · rintro (⟨rfl, hk⟩ | ⟨hc, front, rest, rfl, hfront, hk⟩)
      · exact ⟨[], cs, rfl, List.not_mem_nil, hk⟩
      · exact ⟨c :: front, rest, rfl, by simp [Ne.symm hc, hfront], hk⟩
    · rintro ⟨front, rest, heq, hfront, hk⟩
      cases front with
      | nil =>
        obtain ⟨rfl, rfl⟩ := List.cons.inj heq
        exact .inl ⟨rfl, hk⟩
      | cons d front =>
        obtain ⟨rfl, rfl⟩ := List.cons.inj heq
        rw [List.mem_cons, not_or] at hfront
        exact .inr ⟨Ne.symm hfront.1, front, rest, rfl, hfront.2, hk⟩

section
variable {ts : Pattern} {cs : List Char}

theorem accepts_anyFolders_iff :
    accepts (.anyFolders :: ts) cs = true ↔
      accepts ts cs = true ∨
        ∃ front rest, cs = front ++ '/' :: rest ∧ '\n' ∉ front ∧ accepts ts rest = true := by
  rw [accepts, tokenThen, Bool.or_eq_true, foldersThen_iff]

theorem accepts_anything_iff : accepts [.anything] cs = true ↔ '\n' ∉ cs := by
  simp only [accepts, tokenThen, starThen_iff, bne_iff_ne, List.isEmpty_iff]
  constructor
  · rintro ⟨run, _, rfl, hrun, rfl⟩ hmem
    rw [List.append_nil] at hmem
    exact hrun _ hmem rfl
  · intro h
    exact ⟨cs, [], by simp, fun c hc hn => h (hn ▸ hc), rfl⟩

theorem accepts_anyTail_iff :
    accepts [.anyTail] cs = true ↔ cs = [] ∨ ∃ rest, cs = '/' :: rest ∧ '\n' ∉ rest := by
  cases cs with
  | nil => simp [accepts, tokenThen]
  | cons c cs =>
    have hrun : starThen (· != '\n') (accepts []) cs = true ↔ '\n' ∉ cs := accepts_anything_iff
    have hstep : accepts [.anyTail] (c :: cs) = true ↔ c = '/' ∧ '\n' ∉ cs := by
      rw [← hrun, accepts, tokenThen]
      simp [accepts]
    rw [hstep]
    constructor
    · rintro ⟨rfl, h⟩
      exact .inr ⟨cs, rfl, h⟩
    · rintro (hnil | ⟨rest, heq, h⟩)
      · cases hnil
      · obtain ⟨rfl, rfl⟩ := List.cons.inj heq
        exact ⟨rfl, h⟩

theorem accepts_segmentRun_iff :
    accepts (.segmentRun :: ts) cs = true ↔
      ∃ run rest, cs = run ++ rest ∧ '/' ∉ run ∧ accepts ts rest = true := by
  have hrun (run : List Char) : (∀ c ∈ run, (c != '/') = true) ↔ '/' ∉ run := by
    simp only [bne_iff_ne]
    exact ⟨fun h hmem => h _ hmem rfl, fun h c hc heq => h (heq ▸ hc)⟩
  rw [accepts, tokenThen, starThen_iff]
  simp only [hrun]

theorem accepts_literal_iff {c : Char} :
    accepts (.literal c :: ts) cs = true ↔ ∃ rest, cs = c :: rest ∧ accepts ts rest = true := by
  cases cs with
  | nil => simp [accepts, tokenThen]
  | cons d cs =>
    simp only [accepts, tokenThen, Bool.and_eq_true, beq_iff_eq, List.cons.injEq]
    constructor
    · rintro ⟨rfl, h⟩
      exact ⟨cs, ⟨rfl, rfl⟩, h⟩
    · rintro ⟨_, ⟨rfl, rfl⟩, h⟩
      exact ⟨rfl, h⟩

end

/-! ## Segments -/

theorem ofChars_anyFolders (rest : List Char) :
    ofChars (anySegments ++ '/' :: rest) = .anyFolders :: ofChars rest := by
  rw [anySegments, List.cons_append, List.cons_append, List.nil_append, ofChars]

theorem ofChars_segmentRun {rest : List Char} (h : rest.head? ≠ some '*') :
    ofChars ('*' :: rest) = .segmentRun :: ofChars rest := by
  rw [ofChars]
  · rintro _ rfl
    exact h rfl
  · rintro _ rfl
    exact h rfl

theorem ofChars_literal {c : Char} {rest : List Char} (hc : c ≠ '*')
    (htail : c = '/' → rest ≠ anySegments) : ofChars (c :: rest) = .literal c :: ofChars rest := by
  rw [ofChars]
  · exact fun _ h => absurd h hc
  · exact htail
  · exact fun _ h => absurd h hc
  · exact hc

/-- How a character is read in a segment that holds no `**`. -/
def segmentToken (c : Char) : Token := if c = '*' then .segmentRun else .literal c

theorem ofChars_segment {seg rest : List Char} (hslash : '/' ∉ seg)
    (hstars : ¬anySegments <:+: seg) (hrest : rest.head?.any (· != '/') = false) :
    ofChars (seg ++ rest) = seg.map segmentToken ++ ofChars rest := by
  induction seg with
  | nil => rfl
  | cons c seg ih =>
    rw [List.mem_cons, not_or] at hslash
    have ih := ih hslash.2 fun h => hstars (List.infix_cons h)
    rw [List.cons_append, List.map_cons, List.cons_append, ← ih, segmentToken]
    split
    · next hc =>
      subst hc
      apply ofChars_segmentRun
      intro hhead
      cases seg with
      | nil =>
        rw [List.nil_append] at hhead
        rw [hhead] at hrest
        cases hrest
      | cons d seg =>
        obtain rfl : d = '*' := by simpa using hhead
        exact hstars ⟨[], seg, rfl⟩
    · next hc => exact ofChars_literal hc fun h => absurd h.symm hslash.1

theorem accepts_segment_iff {seg cs : List Char} {ts : Pattern} (hslash : '/' ∉ seg) :
    accepts (seg.map segmentToken ++ ts) cs = true ↔
      ∃ s rest, cs = s ++ rest ∧ '/' ∉ s ∧ SegmentFits seg s ∧ accepts ts rest = true := by
  induction seg generalizing cs with
  | nil =>
    constructor
    · intro h
      exact ⟨[], cs, rfl, List.not_mem_nil, .nil, h⟩
    · rintro ⟨_, rest, rfl, -, ⟨⟩, h⟩
      exact h
  | cons c seg ih =>
    rw [List.mem_cons, not_or] at hslash
    rw [List.map_cons, List.cons_append, segmentToken]
    split
    · next hc =>
      subst hc
      simp only [accepts_segmentRun_iff, ih hslash.2]
      constructor
      · rintro ⟨run, _, rfl, hrun, s, rest, rfl, hs, hfit, hts⟩
        exact ⟨run ++ s, rest, by simp, by simp [hrun, hs], .run run hfit, hts⟩
      · rintro ⟨_, rest, rfl, hs, hfit, hts⟩
        cases hfit with
        | run run hfit =>
          rw [List.mem_append, not_or] at hs
          exact ⟨run, _, by simp, hs.1, _, rest, rfl, hs.2, hfit, hts⟩
        | char hc => exact absurd rfl hc
    · next hc =>
      simp only [accepts_literal_iff, ih hslash.2]
      constructor
      · rintro ⟨_, rfl, s, rest, rfl, hs, hfit, hts⟩
        exact ⟨c :: s, rest, rfl, by simp [hslash.1, hs], .char hc hfit, hts⟩
      · rintro ⟨_, rest, rfl, hs, hfit, hts⟩
        cases hfit with
        | run => exact absurd rfl hc
        | char _ hfit =>
          rw [List.mem_cons, not_or] at hs
          exact ⟨_, rfl, _, rest, rfl, hs.2, hfit, hts⟩

end Pattern

end ProblemBoard.Exclude
