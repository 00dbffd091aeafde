import ProblemBoard.Collect.Basic

/-!
# Shares of producers

What a producer adds to a collection is its *share*, and it depends on the outcome of that
producer alone.  A collection is the shares of all producers that are asked, in their order:
`Collect.collect_eq` says so, for producers whose names can be had.
-/

namespace ProblemBoard

/-! ## Collections behind one another -/

instance : Append Collection where
  append c d := ⟨c.problems ++ d.problems, c.global ++ d.global, c.failures ++ d.failures⟩

namespace Collection

theorem append_eq (c d : Collection) :
    c ++ d = ⟨c.problems ++ d.problems, c.global ++ d.global, c.failures ++ d.failures⟩ := rfl

@[simp] theorem problems_append (c d : Collection) :
    (c ++ d).problems = c.problems ++ d.problems := rfl

@[simp] theorem global_append (c d : Collection) : (c ++ d).global = c.global ++ d.global := rfl

@[simp] theorem failures_append (c d : Collection) :
    (c ++ d).failures = c.failures ++ d.failures := rfl

@[simp] theorem empty_append (c : Collection) : empty ++ c = c := rfl

@[simp] theorem append_empty (c : Collection) : c ++ empty = c := by
  simp [append_eq, empty]

theorem append_assoc (c d e : Collection) : c ++ d ++ e = c ++ (d ++ e) := by
  simp [append_eq]

end Collection

/-! ## What is taken in -/

/-- How bad a problem is, is how bad its finding is. -/
theorem Grade.severity_eq_error {g : Grade} : g.severity = .error ↔ g = .error := by
  cases g <;> decide

namespace Intake

variable {i : Intake} {producer : String} {f : Findings} {q : Problem}

/-- A problem is taken in for a finding in a file, if neither its file nor its severity is left
out. -/
theorem mem_problems :
    q ∈ i.problems producer f ↔
      ∃ e ∈ f.files.entries, i.keepsFile (i.root.under e.1) = true ∧
        ∃ x ∈ e.2, i.filters.allowsSeverity x.grade.severity = true ∧
          x.problem (i.root.under e.1) producer = q := by
  rw [problems, List.mem_flatMap]
  apply exists_congr
  intro e
  apply and_congr_right
  intro _
  cases hkeep : i.keepsFile (i.root.under e.1) with
  | false => simp [fileProblems, hkeep]
  | true =>
    simp only [fileProblems, hkeep, if_true, List.mem_filter, List.mem_map, true_and]
    constructor
    · rintro ⟨⟨x, hx, rfl⟩, hallowed⟩
      exact ⟨x, hx, hallowed, rfl⟩
    · rintro ⟨x, hx, hallowed, rfl⟩
      exact ⟨⟨x, hx, rfl⟩, hallowed⟩

/-- A problem of the program as a whole is taken in for every such finding. -/
theorem mem_global :
    q ∈ i.global producer f ↔ ∃ x ∈ f.global, x.problem i.root producer = q := by
  rw [global, List.mem_map]

end Intake

/-! ## Shares -/

/-- What a producer found, nothing if it failed. -/
def Outcome.findings : Outcome → Findings
  | .found f => f
  | .failed _ => .empty
  | .panicked _ => .empty

/-- The failure a producer leaves. -/
def Outcome.failure? (producer : String) : Outcome → Option Failure
  | .found _ => none
  | .failed e => some e
  | .panicked message => some (.panicked producer (message.getD unknownPanic))

namespace Collect

/-- What a producer adds to a collection. -/
def share (i : Intake) (producer : String) (o : Outcome) : Collection :=
  ⟨i.problems producer o.findings, i.global producer o.findings, (o.failure? producer).toList⟩

/-- Who has nothing to say adds nothing. -/
@[simp] theorem share_found_empty (i : Intake) (producer : String) :
    share i producer (.found .empty) = .empty := rfl

/-- Who fails adds its failure and nothing else. -/
theorem share_of_failure {i : Intake} {producer : String} {o : Outcome} {e : Failure}
    (h : o.failure? producer = some e) : share i producer o = ⟨[], [], [e]⟩ := by
  have hnone : o.findings = .empty := by
    cases o with
    | found f => cases h
    | failed | panicked => rfl
  rw [share, h, hnone]
  rfl

theorem receive_eq (c : Collection) (i : Intake) (producer : String) (o : Outcome) :
    c.receive i (.ok producer) o = .ok (c ++ share i producer o) := by
  cases o with
  | found f =>
    show Except.ok (c.absorb i producer f) = _
    simp [Collection.absorb, Collection.append_eq, share, Outcome.findings, Outcome.failure?]
  | failed e | panicked message =>
    rw [share_of_failure rfl, Collection.append_eq, List.append_nil, List.append_nil]
    rfl

section
variable (i : Intake) (name : ProducerKind → String) (ask : ProducerKind → Request → Outcome)

/-- What several producers add to a collection. -/
def shares : List (ProducerKind × Request) → Collection
  | [] => .empty
  | (k, r) :: steps => share i (name k) (ask k r) ++ shares steps

theorem shares_append (steps more : List (ProducerKind × Request)) :
    shares i name ask (steps ++ more) = shares i name ask steps ++ shares i name ask more := by
  induction steps with
  | nil => rfl
  | cons s steps ih =>
    rw [List.cons_append, shares, shares, ih, Collection.append_assoc]

theorem failures_shares (steps : List (ProducerKind × Request)) :
    (shares i name ask steps).failures =
      steps.filterMap fun s => (ask s.1 s.2).failure? (name s.1) := by
  induction steps with
  | nil => rfl
  | cons s steps ih =>
    rw [shares, Collection.failures_append, ih, List.filterMap_cons]
    show (Outcome.failure? _ _).toList ++ _ = _
    cases (ask s.1 s.2).failure? (name s.1) <;> rfl

theorem problems_shares (steps : List (ProducerKind × Request)) :
    (shares i name ask steps).problems =
      steps.flatMap fun s => i.problems (name s.1) (ask s.1 s.2).findings := by
  induction steps with
  | nil => rfl
  | cons s steps ih => rw [shares, Collection.problems_append, ih, List.flatMap_cons]; rfl

theorem global_shares (steps : List (ProducerKind × Request)) :
    (shares i name ask steps).global =
      steps.flatMap fun s => i.global (name s.1) (ask s.1 s.2).findings := by
  induction steps with
  | nil => rfl
  | cons s steps ih => rw [shares, Collection.global_append, ih, List.flatMap_cons]; rfl

/-- Everyone is asked, and everyone adds a share. -/
theorem inquire_eq (c : Collection) (steps : List (ProducerKind × Request)) :
    inquire i (fun k => .ok (name k)) ask c steps =
      ⟨steps, .ok (c ++ shares i name ask steps)⟩ := by
  induction steps generalizing c with
  | nil => rw [shares, Collection.append_empty]; rfl
  | cons s steps ih =>
    rw [inquire, receive_eq]
    simp only [ih]
    rw [shares, Collection.append_assoc]

end

/-- Shares depend only on the outcomes of those who are asked. -/
theorem shares_congr {i : Intake} {name : ProducerKind → String}
    {ask ask' : ProducerKind → Request → Outcome} {steps : List (ProducerKind × Request)}
    (h : ∀ s ∈ steps, ask s.1 s.2 = ask' s.1 s.2) :
    shares i name ask steps = shares i name ask' steps := by
  induction steps with
  | nil => rfl
  | cons s steps ih =>
    rw [shares, shares, h s (.head _), ih fun t ht => h t (.tail _ ht)]

/-! ## Whole collections -/

section
variable (fs : FileSystem) (refused : List String → Option String)
variable (name : ProducerKind → String) (p : Project) (f : Filters)

/-- A collection is the shares of all who are to be asked, unless an obstacle keeps everyone from
being asked. -/
theorem collect_eq (ask : ProducerKind → Request → Outcome) :
    collect fs refused (fun k => .ok (name k)) ask p f =
      match obstacle fs refused p.root (f.exclude ++ p.excludes) with
      | some e => ⟨[], .error (.scan e)⟩
      | none => ⟨plan p f, .ok (shares (.ofProject p f) name ask (plan p f))⟩ := by
  unfold collect
  cases obstacle fs refused p.root (f.exclude ++ p.excludes) with
  | some e => rfl
  | none => simp only [inquire_eq, Collection.empty_append]

end

/-- Something is collected in a directory with patterns that can be used, if the names of producers
can be had. -/
theorem exists_collection {fs : FileSystem} {refused : List String → Option String}
    {name : ProducerKind → Except String String} {p : Project} {f : Filters}
    (hroot : fs.isDirectory p.root = true) (husable : refused (f.exclude ++ p.excludes) = none)
    (hname : ∀ k, ∃ n, name k = .ok n) (ask : ProducerKind → Request → Outcome) :
    ∃ c, (collect fs refused name ask p f).result = .ok c := by
  have hok : name = fun k => .ok ((name k).toOption.getD "") := by
    funext k
    obtain ⟨n, hn⟩ := hname k
    rw [hn]
    rfl
  rw [hok, collect_eq, obstacle, if_pos hroot, husable]
  exact ⟨_, rfl⟩

end Collect

end ProblemBoard
