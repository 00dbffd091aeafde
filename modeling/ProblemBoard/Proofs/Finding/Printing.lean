import ProblemBoard.Proofs.Finding.LineForm
import ProblemBoard.Proofs.Finding.Reports
import ProblemBoard.Proofs.Text.Lines

/-!
# What is printed is read back

An *entry* is a finding as the type checker prints it: one line for the finding and one for each
continuation of its message.  Blank lines may stand anywhere, and each line may have either end.
`read_written` says that reading gives back the entries, those of each file and those of the
program as a whole in their order, and that no line is left over.

The induction is on the entries read so far.  `Reads` says what the progress knows of them; the
last one may still lack continuations, and it is the one that the next continuation goes to.
-/

namespace ProblemBoard.CompilerText

open ProblemBoard.Text

/-! ## Entries -/

/-- A line that goes on with a message. -/
structure Continuation where
  indent : String
  text : String
  deriving DecidableEq, Repr

/-- What a finding is about. -/
inductive Place where
  | file (path : Path) (start : Position)
  /-- The program as a whole. -/
  | program
  deriving DecidableEq, Repr

/-- A finding as it is printed. -/
structure Entry where
  place : Place
  category : Category
  /-- The number of the rule. -/
  code : Nat
  /-- The message up to its first line end. -/
  message : String
  continuations : List Continuation
  deriving DecidableEq, Repr

/-- A line that goes on with a message, as it is printed. -/
def Continuation.chars (c : Continuation) : List Char := c.indent.toList ++ c.text.toList

/-- What is said at a position. -/
def Headline.locatedAt (h : Headline) (start : Position) : Located :=
  ⟨Nat.toDigits 10 start.line.toNat, Nat.toDigits 10 start.column.toNat, h⟩

/-- The place and the headline of an entry, as they are printed. -/
def Place.chars (h : Headline) : Place → List Char
  | .file path start => path.text.toList ++ (h.locatedAt start).chars
  | .program => h.chars

/-- What an entry says in its first line. -/
def Entry.headline (e : Entry) : Headline :=
  ⟨e.category, Nat.toDigits 10 e.code, e.message.toList⟩

/-- The lines of an entry. -/
def Entry.lines (e : Entry) : List (List Char) :=
  e.place.chars e.headline :: e.continuations.map Continuation.chars

/-- Where an entry starts.  What is about the program is put at its very start. -/
def Place.start : Place → Position
  | .file _ start => start
  | .program => ⟨1, 1⟩

/-- The finding that an entry stands for. -/
def Entry.finding (e : Entry) : Finding where
  start := e.place.start
  stop := none
  base := .one
  grade := e.category.grade
  message := e.continuations.foldl (fun message c => message ++ "\n" ++ c.text) e.message
  code := some (.number e.code)
  source := none

/-! ## What can be printed so that it is read back -/

/-- A continuation is indented, and its text is not empty and has no blanks at its ends. -/
def Continuation.Printable (c : Continuation) : Prop :=
  (c.indent.toList ≠ [] ∧ allBlank c.indent.toList = true) ∧
    c.text.toList ≠ [] ∧ Trimmed c.text.toList

/-- A file has a name that starts with no blank.  No mark stands behind the first character of
the name, or of the whole line where there is no name. -/
def Place.Printable (h : Headline) : Place → Prop
  | .file path _ =>
      (path.text.toList ≠ [] ∧ path.text.toList.head?.any isBlank = false) ∧
        ¬Marked path.text.toList.tail
  | .program => ¬Marked h.chars.tail

/-- The number of an entry has 32 bits, and its message does not end in a carriage return. -/
def Entry.Printable (e : Entry) : Prop :=
  e.place.Printable e.headline ∧ e.code ≤ maxWord32 ∧ e.message.toList.getLast? ≠ some '\r' ∧
    ∀ c ∈ e.continuations, c.Printable

instance (c : Continuation) : Decidable c.Printable :=
  inferInstanceAs (Decidable ((_ ∧ _) ∧ _ ∧ _))

instance (h : Headline) : (p : Place) → Decidable (p.Printable h)
  | .file _ _ => inferInstanceAs (Decidable ((_ ∧ _) ∧ ¬_))
  | .program => inferInstanceAs (Decidable (¬_))

instance (e : Entry) : Decidable e.Printable :=
  inferInstanceAs (Decidable (_ ∧ _ ∧ _ ∧ _))

/-! ## The findings of entries -/

/-- Whether an entry is about a file. -/
def Entry.isAt (q : Path) (e : Entry) : Bool :=
  match e.place with
  | .file path _ => path.same q
  | .program => false

/-- Whether an entry is about the program as a whole. -/
def Entry.isProgramWide (e : Entry) : Bool := e.place = .program

/-- The findings of a file, in the order of their entries. -/
def findingsAt (q : Path) (es : List Entry) : List Finding :=
  (es.filter (·.isAt q)).map Entry.finding

/-- The findings of the program as a whole, in the order of their entries. -/
def programFindings (es : List Entry) : List Finding :=
  (es.filter (·.isProgramWide)).map Entry.finding

/-- What the next continuation belongs to. -/
def Place.target : Place → Target
  | .file path _ => .file path
  | .program => .global

/-- An entry of which only the first line was read. -/
def Entry.begun (e : Entry) : Entry := { e with continuations := [] }

/-- An entry with one more continuation. -/
def Entry.continued (e : Entry) (c : Continuation) : Entry :=
  { e with continuations := e.continuations ++ [c] }

/-- The report that an entry stands for. -/
def Entry.report (e : Entry) : Report where
  file := match e.place with
    | .file path _ => some path
    | .program => none
  finding := e.finding

theorem Entry.report_finding (e : Entry) : e.report.finding = e.finding := rfl

theorem Entry.report_target (e : Entry) : e.report.target = e.place.target := by
  unfold Report.target Entry.report
  cases e.place <;> rfl

/-- One more continuation makes the message of the report longer. -/
theorem Entry.report_continued (e : Entry) (c : Continuation) :
    (e.continued c).report = e.report.extended c.text.toList := by
  simp [Entry.report, Entry.finding, Entry.continued, Report.extended, extend]

theorem findingsAt_eq (q : Path) (es : List Entry) :
    findingsAt q es = reportedAt q (es.map Entry.report) := by
  have hat (e : Entry) : e.report.isAt q = e.isAt q := by
    unfold Report.isAt Entry.report Entry.isAt
    cases e.place <;> rfl
  simp [findingsAt, reportedAt, List.filter_map, Function.comp_def, hat, Entry.report_finding]

theorem programFindings_eq (es : List Entry) :
    programFindings es = reportedGlobally (es.map Entry.report) := by
  have hwide (e : Entry) : e.report.file.isNone = e.isProgramWide := by
    unfold Entry.report Entry.isProgramWide
    cases e.place <;> rfl
  simp [programFindings, reportedGlobally, List.filter_map, Function.comp_def, hwide,
    Entry.report_finding]

/-! ## Lines of entries -/

theorem Entry.ofChars_head {e : Entry} (he : e.Printable) :
    Line.ofChars (e.place.chars e.headline) =
      match e.place with
      | .file path start =>
          .located path.text.toList (e.headline.locatedAt start)
      | .program => .global e.headline := by
  obtain ⟨hplace, -⟩ := he
  have hcode : IsNumeral e.headline.code := isNumeral_toDigits e.code
  cases h : e.place with
  | file path start =>
    rw [h] at hplace
    obtain ⟨⟨hne, hfirst⟩, hmark⟩ := hplace
    obtain ⟨c, cs, hpath⟩ := List.exists_cons_of_ne_nil hne
    rw [hpath] at hfirst hmark
    simp only [Place.chars, hpath]
    exact (Line.ofChars_located_iff hfirst
      ⟨isNumeral_toDigits _, isNumeral_toDigits _, hcode⟩).2 hmark
  | program =>
    rw [h] at hplace
    exact (Line.ofChars_global_iff hcode).2 hplace

theorem coordinate_toDigits (n : UInt32) : coordinate (Nat.toDigits 10 n.toNat) = some n := by
  have hn : n.toNat ≤ maxWord32 := Nat.le_of_lt_succ n.toNat_lt
  rw [coordinate, word32, readDecimal_toDigits hn, Option.map_some, UInt32.ofNat_toNat]

/-- The first line of an entry about a file holds its finding. -/
theorem Entry.finding?_located {e : Entry} {path : Path} {start : Position} (he : e.Printable)
    (h : e.place = .file path start) :
    (e.headline.locatedAt start).finding? = some e.begun.finding := by
  obtain ⟨-, hcode, -⟩ := he
  simp [Located.finding?, Headline.locatedAt, word32, findingAt, Entry.finding, Entry.begun,
    Place.start, h, Entry.headline, coordinate_toDigits, readDecimal_toDigits hcode]

theorem Entry.finding?_headline {e : Entry} (he : e.Printable) (h : e.place = .program) :
    e.headline.finding? = some e.begun.finding := by
  obtain ⟨-, hcode, -⟩ := he
  simp [Headline.finding?, word32, findingAt, Entry.finding, Entry.begun, Place.start, h,
    Entry.headline, readDecimal_toDigits hcode]

/-- The first line of an entry reports its finding. -/
theorem Entry.report?_head {e : Entry} (he : e.Printable) :
    (Line.ofChars (e.place.chars e.headline)).report? = some e.begun.report := by
  rw [Entry.ofChars_head he]
  cases h : e.place with
  | file path start =>
    simp [Line.report?, Entry.finding?_located he h, Entry.report, Entry.begun, h]
  | program => simp [Line.report?, Entry.finding?_headline he h, Entry.report, Entry.begun, h]

theorem Continuation.Printable.ofChars {c : Continuation} (hc : c.Printable) :
    Line.ofChars c.chars = .continuation c.text.toList :=
  Line.ofChars_continuation hc.1.1 hc.1.2 hc.2.1 hc.2.2

/-! ## What is known of the entries read so far -/

/-- How what has been read stands to the entries that were printed. -/
structure Reads (es : List Entry) (s : Progress) : Prop where
  files : ∀ q, s.findings.files.get? q = filed (findingsAt q es)
  global : s.findings.global = programFindings es
  unparsed : s.unparsed = 0
  target : ∀ e ∈ es.getLast?, s.target = e.place.target

theorem reads_start : Reads [] .start where
  files := fun _ => rfl
  global := rfl
  unparsed := rfl
  target := nofun

section
variable {es : List Entry} {s : Progress} {e : Entry}

theorem reads_iff :
    Reads es s ↔ Holds (es.map Entry.report) s.findings ∧ s.unparsed = 0 ∧
      ∀ e ∈ es.getLast?, s.target = e.place.target := by
  constructor
  · intro hs
    exact ⟨⟨fun q => findingsAt_eq q es ▸ hs.files q, programFindings_eq es ▸ hs.global⟩,
      hs.unparsed, hs.target⟩
  · rintro ⟨hholds, hunparsed, htarget⟩
    exact ⟨fun q => findingsAt_eq q es ▸ hholds.files q, programFindings_eq es ▸ hholds.global,
      hunparsed, htarget⟩

/-- What is known when some entry is the last one. -/
theorem reads_concat_iff :
    Reads (es ++ [e]) s ↔ Holds (es.map Entry.report ++ [e.report]) s.findings ∧
      s.unparsed = 0 ∧ s.target = e.report.target := by
  rw [reads_iff, List.map_append, List.map_singleton, List.getLast?_concat, e.report_target]
  simp

/-- The first line of an entry brings its finding. -/
theorem Reads.head (hs : Reads es s) (he : e.Printable) :
    Reads (es ++ [e.begun]) (s.step (e.place.chars e.headline)) := by
  obtain ⟨hholds, hunparsed, -⟩ := reads_iff.1 hs
  rw [Progress.step_of_report (Entry.report?_head he), reads_concat_iff]
  exact ⟨hholds.add _, hunparsed, rfl⟩

/-- A continuation makes the message of the last entry longer, wherever its finding is. -/
theorem Reads.continuation {c : Continuation} (hs : Reads (es ++ [e]) s) (hc : c.Printable) :
    Reads (es ++ [e.continued c]) (s.step c.chars) := by
  obtain ⟨hholds, hunparsed, htarget⟩ := reads_concat_iff.1 hs
  obtain ⟨f, hprolong, hf⟩ := hholds.prolong htarget c.text.toList
  have hstep : s.step c.chars = { s with findings := f } := by
    rw [Progress.step, hc.ofChars]
    exact hprolong
  rw [hstep, reads_concat_iff, e.report_continued]
  exact ⟨hf, hunparsed, htarget⟩

/-! ## Whole entries -/

theorem Reads.continuations {cs : List Continuation} (hs : Reads (es ++ [e]) s)
    (hc : ∀ c ∈ cs, c.Printable) :
    Reads (es ++ [{ e with continuations := e.continuations ++ cs }])
      ((cs.map Continuation.chars).foldl Progress.step s) := by
  induction cs generalizing e s with
  | nil =>
    rw [List.append_nil]
    exact hs
  | cons c cs ih =>
    have hnext := ih (hs.continuation (hc c (.head _))) fun d hd => hc d (.tail _ hd)
    simpa [Entry.continued] using hnext

theorem Reads.entry (hs : Reads es s) (he : e.Printable) :
    Reads (es ++ [e]) (e.lines.foldl Progress.step s) :=
  (hs.head he).continuations he.2.2.2

theorem Reads.entries {done : List Entry} (hs : Reads done s) (hes : ∀ e ∈ es, e.Printable) :
    Reads (done ++ es) ((es.flatMap Entry.lines).foldl Progress.step s) := by
  induction es generalizing done s with
  | nil =>
    rw [List.append_nil]
    exact hs
  | cons e es ih =>
    have hnext := ih (hs.entry (hes e (.head _))) fun d hd => hes d (.tail _ hd)
    rw [List.append_assoc] at hnext
    rw [List.flatMap_cons, List.foldl_append]
    exact hnext

end

/-! ## Blank lines and line ends -/

theorem Progress.step_of_allBlank {line : List Char} (h : allBlank line = true) (s : Progress) :
    s.step line = s := by
  rw [Progress.step, Line.ofChars, if_pos h]

theorem Headline.getLast?_lead (h : Headline) : h.lead.getLast? = some ' ' := by
  simp [Headline.lead, List.getLast?_cons]

/-- The first line of an entry ends as its message does, or in a space. -/
theorem Place.getLast?_chars (h : Headline) (p : Place) :
    (p.chars h).getLast? = h.message.getLast?.or (some ' ') := by
  cases p with
  | file path start =>
    simp [Place.chars, Headline.locatedAt, Located.chars, Located.mark, List.getLast?_append,
      List.getLast?_cons, h.getLast?_lead]
  | program => simp [Place.chars, Headline.chars, List.getLast?_append, h.getLast?_lead]

/-- No line of an entry ends in a carriage return. -/
theorem Entry.Printable.getLast?_ne {e : Entry} {line : List Char} (he : e.Printable)
    (hl : line ∈ e.lines) : line.getLast? ≠ some '\r' := by
  obtain ⟨-, -, hmessage, hcs⟩ := he
  rcases List.mem_cons.1 hl with rfl | hl
  · rw [Place.getLast?_chars]
    intro hlast
    rcases Option.or_eq_some_iff.1 hlast with hlast | ⟨-, hspace⟩
    · exact hmessage hlast
    · exact absurd hspace (by decide)
  · obtain ⟨c, hc, rfl⟩ := List.mem_map.1 hl
    obtain ⟨-, hne, htrim⟩ := hcs c hc
    rw [Continuation.chars, List.getLast?_append]
    intro hlast
    rcases Option.or_eq_some_iff.1 hlast with hlast | ⟨hnone, -⟩
    · exact absurd (hlast ▸ htrim.last) (by decide)
    · exact hne (List.getLast?_eq_none_iff.1 hnone)

/-- Lines are read as if no blank ones stood between them, and each was ended without loss. -/
theorem foldl_step_seen {ls : List WrittenLine} (s : Progress)
    (h : ∀ l ∈ ls, allBlank l.chars = false → l.chars.getLast? ≠ some '\r') :
    (ls.map WrittenLine.seen).foldl Progress.step s =
      ((ls.map (·.chars)).filter fun line => !allBlank line).foldl Progress.step s := by
  induction ls generalizing s with
  | nil => rfl
  | cons l ls ih =>
    have ih (s : Progress) := ih s fun k hk => h k (.tail _ hk)
    cases hb : allBlank l.chars with
    | true =>
      simp [hb, ih, Progress.step_of_allBlank (WrittenLine.allBlank_seen hb)]
    | false =>
      simp [hb, ih, WrittenLine.seen_of_ne (h l (.head _) hb)]

/-- Reading gives back what was printed.  The lines that are not blank are those of the entries,
in their order; each line has an end of its own, and neither blank lines nor line ends change what
is read.  No line is left over, the findings of the
program as a whole are those of its entries, and so are the findings of each file, in whatever
order the files come and however their names are spelled. -/
theorem read_written {es : List Entry} {ls : List WrittenLine} (hes : ∀ e ∈ es, e.Printable)
    (hls : (ls.map (·.chars)).filter (fun line => !allBlank line) = es.flatMap Entry.lines) :
    ∃ found, read (String.ofList (written ls)) = (found, 0) ∧
      found.global = programFindings es ∧
      ∀ q, found.files.get? q = filed (findingsAt q es) := by
  have hlast : ∀ l ∈ ls, allBlank l.chars = false → l.chars.getLast? ≠ some '\r' := by
    intro l hl hb
    have hmem : l.chars ∈ es.flatMap Entry.lines := by
      rw [← hls]
      exact List.mem_filter.2 ⟨List.mem_map.2 ⟨l, hl, rfl⟩, by simp [hb]⟩
    obtain ⟨e, he, hline⟩ := List.mem_flatMap.1 hmem
    exact (hes e he).getLast?_ne hline
  have hread := reads_start.entries hes
  rw [← hls, ← foldl_step_seen .start hlast, ← lineChars_written] at hread
  refine ⟨_, ?_, hread.global, hread.files⟩
  rw [read, String.toList_ofList]
  exact congrArg (Prod.mk _) hread.unparsed

/-- Two findings of one file, whose name has parentheses and is spelled in two ways, with one of
the program in between.  The first message quotes another location, and a blank line stands
between it and its continuations. -/
theorem read_written_interleaved :
    ∃ found, read ("a (1,2)/b.ts(12,5): error TS2322: See c(3,4): error TS1: x\r\n" ++
        "\n  Want A.\n    Got B.\r\nwarning TS5083: No file.\n \t\r\n\tLook.\n" ++
        "a (1,2)//b.ts(4294967295,1): message TS7: \n") = (found, 0) ∧
      found.global.map (fun x => (x.start, x.grade, x.message)) =
        [(⟨1, 1⟩, .warning, "No file.\nLook.")] ∧
      (found.files.get? ⟨"a (1,2)/b.ts"⟩).map (·.map fun x => (x.start, x.grade, x.message)) =
        some
          [(⟨12, 5⟩, .error, "See c(3,4): error TS1: x\nWant A.\nGot B."),
            (⟨4294967295, 1⟩, .information, "")] := by
  let es : List Entry :=
    [⟨.file ⟨"a (1,2)/b.ts"⟩ ⟨12, 5⟩, .error, 2322, "See c(3,4): error TS1: x",
        [⟨"  ", "Want A."⟩, ⟨"    ", "Got B."⟩]⟩,
      ⟨.program, .warning, 5083, "No file.", [⟨"\t", "Look."⟩]⟩,
      ⟨.file ⟨"a (1,2)//b.ts"⟩ ⟨4294967295, 1⟩, .message, 7, "", []⟩]
  let ls : List WrittenLine :=
    [⟨"a (1,2)/b.ts(12,5): error TS2322: See c(3,4): error TS1: x".toList, .returnFeed,
        by decide⟩,
      ⟨[], .feed, by decide⟩,
      ⟨"  Want A.".toList, .feed, by decide⟩,
      ⟨"    Got B.".toList, .returnFeed, by decide⟩,
      ⟨"warning TS5083: No file.".toList, .feed, by decide⟩,
      ⟨" \t".toList, .returnFeed, by decide⟩,
      ⟨"\tLook.".toList, .feed, by decide⟩,
      ⟨"a (1,2)//b.ts(4294967295,1): message TS7: ".toList, .feed, by decide⟩]
  have hes : ∀ e ∈ es, e.Printable := by decide
  have hls : (ls.map (·.chars)).filter (fun line => !allBlank line) = es.flatMap Entry.lines := by
    decide
  obtain ⟨found, hread, hglobal, hfiles⟩ := read_written hes hls
  refine ⟨found, .trans (congrArg read ?_) hread, ?_, ?_⟩
  · decide +kernel
  · rw [hglobal]
    decide
  · rw [hfiles]
    decide

end ProblemBoard.CompilerText
