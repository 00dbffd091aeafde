import ProblemBoard.Proofs.Collect.Filtering
import ProblemBoard.Text.Digit
import ProblemBoard.View.Render

/-!
# Collected problems

Whatever the producers report, what is collected can be relied upon: `Problem.WellFormed` says how
far, and `Collect.collected_wellFormed` that every collected problem is well formed and that the
filters keep it.  It does not matter whether a producer counts from zero or from one, and a producer
that counts from one finds its own numbers in the text of the problem.
-/

namespace ProblemBoard

/-! ## Problems of findings -/

/-- What can be relied upon in a problem that was collected. -/
structure Problem.WellFormed (q : Problem) : Prop where
  absolute : q.file.isAbsolute = true
  /-- The range does not end before it starts. -/
  ordered : q.range.start.line < q.range.stop.line ∨
    q.range.start.line = q.range.stop.line ∧ q.range.start.column ≤ q.range.stop.column
  source : q.source ≠ ""
  code : q.code ≠ some ""

theorem RuleCode.shown_ne_empty (c : RuleCode) : c.shown ≠ some "" := by
  cases c with
  | number n =>
    intro h
    exact Nat.repr_ne_empty (Option.some.inj h)
  | text s =>
    rw [shown]
    split
    · simp
    · next hs => simpa using hs

namespace Finding

variable {x : Finding} {file : Path} {producer : String}

theorem shownSource_ne_empty (h : producer ≠ "") : x.shownSource producer ≠ "" := by
  unfold shownSource
  cases x.source with
  | none => exact h
  | some s =>
    dsimp only
    split
    · exact h
    · next hs => simpa using hs

theorem wellFormed_problem (hfile : file.isAbsolute = true) (hproducer : producer ≠ "") :
    (x.problem file producer).WellFormed where
  absolute := hfile
  ordered := (x.problem file producer).range.start_le_stop
  source := shownSource_ne_empty hproducer
  code := by
    show x.code.bind RuleCode.shown ≠ some ""
    cases x.code with
    | none => simp
    | some c => exact c.shown_ne_empty

end Finding

/-! ## Counting from one -/

/-- The position with the next line and the next column. -/
def Position.next (p : Position) : Position := ⟨p.line + 1, p.column + 1⟩

/-- A position as it should be when it is counted from one. -/
def Position.FromOne (p : Position) : Prop := 1 ≤ p.line ∧ 1 ≤ p.column

instance (p : Position) : Decidable p.FromOne := inferInstanceAs (Decidable (_ ∧ _))

theorem Base.toZero_add_one {n : UInt32} (h : 1 ≤ n + 1) : Base.one.toZero (n + 1) = n := by
  rw [toZero, if_neg (UInt32.pos_iff_ne_zero.1 h), UInt32.add_sub_cancel]

theorem Base.toZero_one_add {n : UInt32} (h : 1 ≤ n) : Base.one.toZero n + 1 = n := by
  rw [toZero, if_neg (UInt32.pos_iff_ne_zero.1 h), UInt32.sub_add_cancel]

/-- What was counted from one can be counted from one again. -/
theorem Base.toNat_toZero_one_lt (n : UInt32) :
    (Base.one.toZero n).toNat + 1 ≤ Text.maxWord32 := by
  have hn : n.toNat < 4294967296 := n.toNat_lt
  rw [toNat_toZero_one, Text.maxWord32]
  omega

/-- Counted from one, the next position is what the position itself is, counted from zero. -/
theorem Base.position_next {p : Position} (h : p.next.FromOne) :
    Base.one.position p.next = Base.zero.position p := by
  rw [position, Position.next, toZero_add_one h.1, toZero_add_one h.2]
  rfl

/-- A finding counts from one what another one counts from zero, so every number is one more. -/
structure Finding.OneMore (x y : Finding) : Prop where
  fromOne : x.base = .one
  fromZero : y.base = .zero
  start : x.start = y.start.next
  stop : x.stop = y.stop.map Position.next
  startFromOne : x.start.FromOne
  stopFromOne : ∀ p ∈ x.stop, p.FromOne
  grade : x.grade = y.grade
  message : x.message = y.message
  code : x.code = y.code
  source : x.source = y.source

namespace Finding

variable {x y : Finding} {file : Path} {producer : String}

theorem OneMore.range_eq (h : x.OneMore y) : x.range = y.range := by
  have hstart := h.startFromOne
  have hstop := h.stopFromOne
  rw [h.start] at hstart
  rw [h.stop] at hstop
  unfold range
  rw [h.fromOne, h.fromZero, h.start, h.stop, Base.position_next hstart]
  cases hy : y.stop with
  | none => rfl
  | some stop =>
    rw [hy] at hstop
    simp only [Option.map_some, Base.position_next (hstop _ rfl)]

/-- The same problem comes of both. -/
theorem OneMore.problem_eq (h : x.OneMore y) :
    x.problem file producer = y.problem file producer := by
  unfold problem shownSource
  rw [h.range_eq, h.grade, h.message, h.code, h.source]

/-- A problem starts where its finding starts. -/
theorem start_problem : (x.problem file producer).range.start = x.base.position x.start := by
  show x.range.start = _
  unfold range
  cases x.stop with
  | none => exact TextRange.point_start _
  | some stop => exact TextRange.between_start _ _

/-- Numbers that count from one are one more than those of the problem. -/
theorem start_problem_next (hbase : x.base = .one) (h : x.start.FromOne) :
    (x.problem file producer).range.start.next = x.start := by
  rw [start_problem, hbase, Position.next, Base.position, Base.toZero_one_add h.1,
    Base.toZero_one_add h.2]

theorem toNat_start_problem_lt (hbase : x.base = .one) :
    (x.problem file producer).range.start.line.toNat + 1 ≤ Text.maxWord32 ∧
      (x.problem file producer).range.start.column.toNat + 1 ≤ Text.maxWord32 := by
  rw [start_problem, hbase]
  exact ⟨Base.toNat_toZero_one_lt _, Base.toNat_toZero_one_lt _⟩

end Finding

theorem Problem.place_eq (q : Problem) :
    q.place = toString q.range.start.next.line ++ ":" ++ toString q.range.start.next.column := rfl

/-! ## Collections -/

/-- What can be relied upon in all that was collected for a project under filters. -/
structure Collection.Sound (p : Project) (f : Filters) (c : Collection) : Prop where
  problems : ∀ q ∈ c.problems, q.WellFormed ∧ f.Keeps p q
  global : ∀ q ∈ c.global, q.WellFormed ∧ q.file = p.root

section
variable {p : Project} {f : Filters} {c d : Collection} {producer : String}
variable (hroot : p.root.isAbsolute = true)
include hroot

theorem Collection.Sound.absorb (h : c.Sound p f) (hproducer : producer ≠ "") (found : Findings) :
    (c.absorb (.ofProject p f) producer found).Sound p f where
  problems := by
    intro q hq
    rcases List.mem_append.1 hq with hq | hq
    · exact h.problems q hq
    · obtain ⟨e, -, hkeeps, x, -, hallowed, rfl⟩ := Intake.mem_problems.1 hq
      have hfile : (p.root.under e.1).isAbsolute = true := Path.isAbsolute_under hroot e.1
      exact ⟨Finding.wellFormed_problem hfile hproducer, Filters.keeps_iff.2 ⟨hallowed, hkeeps⟩⟩
  global := by
    intro q hq
    rcases List.mem_append.1 hq with hq | hq
    · exact h.global q hq
    · obtain ⟨x, -, rfl⟩ := Intake.mem_global.1 hq
      exact ⟨Finding.wellFormed_problem hroot hproducer, rfl⟩

theorem Collection.Sound.receive (h : c.Sound p f) {name : Except String String}
    (hname : ∀ n, name = .ok n → n ≠ "") {o : Outcome}
    (hd : c.receive (.ofProject p f) name o = .ok d) : d.Sound p f := by
  cases o with
  | found found =>
    cases name with
    | error message => cases hd
    | ok n =>
      obtain rfl := Except.ok.inj hd
      exact h.absorb hroot (hname n rfl) found
  | failed e =>
    obtain rfl := Except.ok.inj hd
    exact ⟨h.problems, h.global⟩
  | panicked message =>
    cases name with
    | error message => cases hd
    | ok n =>
      obtain rfl := Except.ok.inj hd
      exact ⟨h.problems, h.global⟩

namespace Collect

variable {name : ProducerKind → Except String String}
variable (hname : ∀ k n, name k = .ok n → n ≠ "")
include hname

theorem sound_inquire {ask : ProducerKind → Request → Outcome}
    {steps : List (ProducerKind × Request)} (h : c.Sound p f)
    (hd : (inquire (.ofProject p f) name ask c steps).result = .ok d) : d.Sound p f := by
  induction steps generalizing c with
  | nil =>
    obtain rfl := Except.ok.inj hd
    exact h
  | cons s steps ih =>
    obtain ⟨k, r⟩ := s
    rw [inquire] at hd
    cases hreceived : c.receive (.ofProject p f) (name k) (ask k r) with
    | error message =>
      rw [hreceived] at hd
      cases hd
    | ok e =>
      rw [hreceived] at hd
      exact ih (h.receive hroot (hname k) hreceived) hd

theorem sound_collect {fs : FileSystem} {refused : List String → Option String}
    {ask : ProducerKind → Request → Outcome}
    (hc : (collect fs refused name ask p f).result = .ok c) : c.Sound p f := by
  unfold collect at hc
  split at hc
  · cases hc
  · exact sound_inquire hroot hname ⟨by simp [Collection.empty], by simp [Collection.empty]⟩ hc

end Collect

end

namespace Collect

/-- In a workspace with an absolute root, and with producers that have names, every problem that is
collected is well formed and kept by the filters, and every problem of the program as a whole is
well formed and at the root.  A finding that counts from one makes the same problem as the one that
counts from zero with numbers one less.  Where a finding counts from one as it should, the text of
its problem holds its line and its column, and no number on the way leaves the 32 bits. -/
theorem collected_wellFormed (fs : FileSystem) (refused : List String → Option String)
    (name : ProducerKind → Except String String) (ask : ProducerKind → Request → Outcome)
    (p : Project) (f : Filters) (hroot : p.root.isAbsolute = true)
    (hname : ∀ k n, name k = .ok n → n ≠ "") :
    (∀ c, (collect fs refused name ask p f).result = .ok c →
      (∀ q ∈ c.problems, q.WellFormed ∧ f.Keeps p q) ∧
        ∀ q ∈ c.global, q.WellFormed ∧ q.file = p.root) ∧
      (∀ (x y : Finding) (file : Path) (producer : String), x.OneMore y →
        x.problem file producer = y.problem file producer) ∧
      ∀ (x : Finding) (file root : Path) (producer : String), x.base = .one →
        1 ≤ x.start.line → 1 ≤ x.start.column →
          (x.problem file producer).location root =
              root.label file ++ ":" ++
                (toString x.start.line ++ ":" ++ toString x.start.column) ++ ": " ++
                x.grade.severity.label ++ ": [" ++ (x.problem file producer).origin ++ "] " ++
                x.message ∧
            (x.problem file producer).range.start.line.toNat + 1 ≤ Text.maxWord32 ∧
            (x.problem file producer).range.start.column.toNat + 1 ≤ Text.maxWord32 := by
  refine ⟨?_, ?_, ?_⟩
  · intro c hc
    have hsound := sound_collect hroot hname hc
    exact ⟨hsound.problems, hsound.global⟩
  · intro x y file producer h
    exact h.problem_eq
  · intro x file root producer hbase hline hcolumn
    have hnext : (x.problem file producer).range.start.next = x.start :=
      Finding.start_problem_next hbase ⟨hline, hcolumn⟩
    refine ⟨?_, Finding.toNat_start_problem_lt hbase⟩
    rw [Problem.location, Problem.display, Problem.place_eq, hnext]
    rfl

/-- A finding ends in front of its start, and its code and its source are empty.  What is collected
of it is well formed, and its text holds the line and the column that were reported. -/
theorem collected_wellFormed_reversed :
    let x : Finding := ⟨⟨3, 7⟩, some ⟨3, 1⟩, .one, .warning, "late", some (.text ""), some ""⟩
    let y : Finding := ⟨⟨2, 6⟩, some ⟨2, 0⟩, .zero, .warning, "late", some (.text ""), some ""⟩
    let p : Project := .bare ⟨"/ws"⟩
    let f : Filters := ⟨true, true, true, true, [".ts"], [], .openFiles⟩
    let found := Findings.empty.append ⟨"src/a.ts"⟩ [x]
    let q := x.problem ⟨"/ws/src/a.ts"⟩ liveName
    p.root.isAbsolute = true ∧ (∀ n, (.ok liveName : Except String String) = .ok n → n ≠ "") ∧
      (∃ c, (collect ⟨fun _ => .ok .directory⟩ Exclude.noLimit (fun _ => .ok liveName)
          (fun _ _ => .found found) p f).result = .ok c ∧
        q ∈ c.problems ∧ q.WellFormed ∧ f.Keeps p q) ∧
      q.range = .point ⟨2, 6⟩ ∧ q.source = "live" ∧ q.code = none ∧
      x.OneMore y ∧ q = y.problem ⟨"/ws/src/a.ts"⟩ liveName ∧
      x.base = .one ∧ 1 ≤ x.start.line ∧ 1 ≤ x.start.column ∧
      q.location ⟨"/ws"⟩ = "src/a.ts:3:7: warning: [live] late" := by
  intro x y p f found q
  have hname : ∀ n, (.ok liveName : Except String String) = .ok n → n ≠ "" := by
    rintro _ ⟨⟩
    decide
  have hmore : x.OneMore y := ⟨rfl, rfl, rfl, rfl, by decide, by decide, rfl, rfl, rfl, rfl⟩
  obtain ⟨hcollected, hproblem, hlocation⟩ :=
    collected_wellFormed ⟨fun _ => .ok .directory⟩ Exclude.noLimit (fun _ => .ok liveName)
      (fun _ _ => .found found) p f (by decide) fun _ => hname
  obtain ⟨hproblems, -⟩ := hcollected _ rfl
  have hq : q ∈ (Collection.empty.absorb (.ofProject p f) liveName found).problems := by
    decide +kernel
  obtain ⟨hwell, hkeeps⟩ := hproblems q hq
  obtain ⟨htext, -, -⟩ := hlocation x ⟨"/ws/src/a.ts"⟩ ⟨"/ws"⟩ liveName rfl (by decide) (by decide)
  exact ⟨by decide, hname, ⟨_, rfl, hq, hwell, hkeeps⟩, by decide, by decide, by decide, hmore,
    hproblem x y _ _ hmore, rfl, by decide, by decide, htext.trans (by decide)⟩

end Collect

end ProblemBoard
