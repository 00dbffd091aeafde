import ProblemBoard.Collect.Basic
import ProblemBoard.Proofs.Path.Relocation

/-!
# Collecting in a moved workspace

A scan of a workspace is compared with one at another root, where the tools find the same in the
same files.  The keys of findings stand in the same order in both, so the entries correspond one by
one; a file is kept in both or in none; and one outcome after another is taken in alike.
-/

namespace ProblemBoard

namespace Relocation

open ProblemBoard.Path

/-! ## What corresponds -/

/-- Two entries of findings are the same, with keys that are one file. -/
def MovesEntry (m : Relocation) (e e' : Path × List Finding) : Prop :=
  m.MovesKey e.1 e'.1 ∧ e.2 = e'.2

/-- Two findings have the same for each file, and the same for the program as a whole. -/
structure MovesFindings (m : Relocation) (found found' : Findings) : Prop where
  forth : ∀ e ∈ found.files.entries, ∃ e' ∈ found'.files.entries, m.MovesEntry e e'
  back : ∀ e' ∈ found'.files.entries, ∃ e ∈ found.files.entries, m.MovesEntry e e'
  global : found.global = found'.global

/-- Two producers find the same, or fail alike. -/
inductive MovesOutcome (m : Relocation) : Outcome → Outcome → Prop where
  | found {found found' : Findings} (h : m.MovesFindings found found') :
      MovesOutcome m (.found found) (.found found')
  | failed (e : Failure) : MovesOutcome m (.failed e) (.failed e)
  | panicked (message : Option String) : MovesOutcome m (.panicked message) (.panicked message)

/-- The same is known of the workspace at the two roots, as far as a scan goes by it. -/
structure MovesProject (m : Relocation) (p p' : Project) : Prop where
  root : p.root = m.old
  root' : p'.root = m.new
  typeCheckConfig : p.typeCheckConfig.isSome = p'.typeCheckConfig.isSome
  framework : p.framework = p'.framework

/-- Two problems are the same, in one file. -/
structure MovesProblem (m : Relocation) (x x' : Problem) : Prop where
  file : m.Moves x.file x'.file
  rest : x' = { x with file := x'.file }

/-- Two problems of the program as a whole are the same, each at its root. -/
structure MovesGlobal (m : Relocation) (x x' : Problem) : Prop where
  file : x.file = m.old
  rest : x' = { x with file := m.new }

/-- Two collections have the same problems in the same order, and the same failures. -/
structure MovesCollection (m : Relocation) (c c' : Collection) : Prop where
  problems : List.Forall₂ m.MovesProblem c.problems c'.problems
  global : List.Forall₂ m.MovesGlobal c.global c'.global
  failures : c.failures = c'.failures

/-- Two results are the same error, or collections of the same. -/
inductive MovesResult {ε : Type} (m : Relocation) :
    Except ε Collection → Except ε Collection → Prop where
  | error (e : ε) : MovesResult m (.error e) (.error e)
  | ok {c c' : Collection} (h : m.MovesCollection c c') : MovesResult m (.ok c) (.ok c')

/-- In two inquiries the same producers are asked, with the same result. -/
structure MovesInquiry (m : Relocation) (q q' : Collect.Inquiry) : Prop where
  asked : q.asked.map Prod.fst = q'.asked.map Prod.fst
  result : m.MovesResult q.result q'.result

section
variable {m : Relocation}

/-! ## Entries -/

theorem MovesEntry.before_iff {e e' x x' : Path × List Finding} (he : m.MovesEntry e e')
    (hx : m.MovesEntry x x') : EntryBefore e x ↔ EntryBefore e' x' := by
  rw [EntryBefore, EntryBefore, he.1.before_eq hx.1]

theorem not_entryBefore_self (e : Path × List Finding) : ¬EntryBefore e e := by
  intro h
  rw [EntryBefore, not_before_of_before h] at h
  cases h

theorem not_entryBefore_of_entryBefore {e x : Path × List Finding} (h : EntryBefore e x) :
    ¬EntryBefore x e :=
  Bool.eq_false_iff.1 (not_before_of_before h)

/-- Entries that correspond in any order do so one by one, since both stand in the order of their
keys: were the two heads not one file, each would stand in front of the other. -/
theorem forall₂_entries {es es' : List (Path × List Finding)} (hs : es.Pairwise EntryBefore)
    (hs' : es'.Pairwise EntryBefore) (hforth : ∀ e ∈ es, ∃ e' ∈ es', m.MovesEntry e e')
    (hback : ∀ e' ∈ es', ∃ e ∈ es, m.MovesEntry e e') : List.Forall₂ m.MovesEntry es es' := by
  induction es generalizing es' with
  | nil =>
    cases es' with
    | nil => exact .nil
    | cons e' es' =>
      obtain ⟨e, he, -⟩ := hback e' (.head _)
      cases he
  | cons e es ih =>
    cases es' with
    | nil =>
      obtain ⟨e', he', -⟩ := hforth e (.head _)
      cases he'
    | cons e' es' =>
      obtain ⟨hhead, htail⟩ := List.pairwise_cons.1 hs
      obtain ⟨hhead', htail'⟩ := List.pairwise_cons.1 hs'
      have hfirst : m.MovesEntry e e' := by
        obtain ⟨x', hx', hex⟩ := hforth e (.head _)
        obtain ⟨x, hx, hxe⟩ := hback e' (.head _)
        rcases List.mem_cons.1 hx' with rfl | hx'
        · exact hex
        rcases List.mem_cons.1 hx with rfl | hx
        · exact hxe
        · have hlt := (hex.before_iff hxe).1 (hhead x hx)
          exact absurd (hhead' x' hx') (not_entryBefore_of_entryBefore hlt)
      refine .cons hfirst (ih htail htail' ?_ ?_)
      · intro x hx
        obtain ⟨x', hx', hxx⟩ := hforth x (.tail _ hx)
        rcases List.mem_cons.1 hx' with rfl | hx'
        · exact absurd ((hfirst.before_iff hxx).1 (hhead x hx)) (not_entryBefore_self x')
        · exact ⟨x', hx', hxx⟩
      · intro x' hx'
        obtain ⟨x, hx, hxx⟩ := hback x' (.tail _ hx')
        rcases List.mem_cons.1 hx with rfl | hx
        · exact absurd ((hfirst.before_iff hxx).2 (hhead' x' hx')) (not_entryBefore_self x)
        · exact ⟨x, hx, hxx⟩

theorem MovesFindings.entries {found found' : Findings} (h : m.MovesFindings found found') :
    List.Forall₂ m.MovesEntry found.files.entries found'.files.entries :=
  forall₂_entries found.files.sorted found'.files.sorted h.forth h.back

/-! ## Problems -/

section
variable (f : Filters) (patterns : List Exclude.Pattern) (producer : String)

/-- A file is kept at both roots or at none. -/
theorem keepsFile_eq {p p' : Path} (h : m.Moves p p') :
    (Intake.mk m.old f patterns).keepsFile p = (Intake.mk m.new f patterns).keepsFile p' := by
  show (f.allowsFile p && !Exclude.excludes patterns (m.old.label p)) =
    (f.allowsFile p' && !Exclude.excludes patterns (m.new.label p'))
  rw [h.label_eq, Filters.allowsFile, Filters.allowsFile, h.fileName_eq]

theorem movesProblem_problem {p p' : Path} (h : m.Moves p p') (x : Finding) :
    m.MovesProblem (x.problem p producer) (x.problem p' producer) := ⟨h, rfl⟩

theorem MovesProblem.severity_eq {x x' : Problem} (h : m.MovesProblem x x') :
    x.severity = x'.severity := by
  rw [h.rest]

theorem forall₂_fileProblems {k k' : Path} (h : m.MovesKey k k') (xs : List Finding) :
    List.Forall₂ m.MovesProblem ((Intake.mk m.old f patterns).fileProblems producer k xs)
      ((Intake.mk m.new f patterns).fileProblems producer k' xs) := by
  simp only [Intake.fileProblems, keepsFile_eq f patterns h.under]
  split
  · refine List.rel_filter ?_ ?_
    · intro x x' hx
      show f.allowsSeverity x.severity = true ↔ f.allowsSeverity x'.severity = true
      rw [hx.severity_eq]
    · rw [List.forall₂_map_left_iff, List.forall₂_map_right_iff, List.forall₂_same]
      intro x _
      exact movesProblem_problem producer h.under x
  · exact .nil

theorem forall₂_problems {found found' : Findings} (h : m.MovesFindings found found') :
    List.Forall₂ m.MovesProblem ((Intake.mk m.old f patterns).problems producer found)
      ((Intake.mk m.new f patterns).problems producer found') := by
  refine List.rel_flatMap h.entries ?_
  rintro ⟨k, xs⟩ ⟨k', xs'⟩ ⟨hk, rfl⟩
  exact forall₂_fileProblems f patterns producer hk xs

theorem forall₂_global {found found' : Findings} (h : m.MovesFindings found found') :
    List.Forall₂ m.MovesGlobal ((Intake.mk m.old f patterns).global producer found)
      ((Intake.mk m.new f patterns).global producer found') := by
  rw [Intake.global, Intake.global, h.global, List.forall₂_map_left_iff,
    List.forall₂_map_right_iff, List.forall₂_same]
  intro x _
  exact ⟨rfl, rfl⟩

end

/-! ## Inquiries -/

section
variable {f : Filters} {patterns : List Exclude.Pattern} {c c' : Collection}

theorem movesCollection_empty : m.MovesCollection .empty .empty := ⟨.nil, .nil, rfl⟩

theorem MovesCollection.absorb (h : m.MovesCollection c c') (producer : String)
    {found found' : Findings} (hf : m.MovesFindings found found') :
    m.MovesCollection (c.absorb ⟨m.old, f, patterns⟩ producer found)
      (c'.absorb ⟨m.new, f, patterns⟩ producer found') where
  problems := List.rel_append h.problems (forall₂_problems f patterns producer hf)
  global := List.rel_append h.global (forall₂_global f patterns producer hf)
  failures := h.failures

theorem MovesCollection.fail (h : m.MovesCollection c c') (e : Failure) :
    m.MovesCollection (c.fail e) (c'.fail e) where
  problems := h.problems
  global := h.global
  failures := congrArg (· ++ [e]) h.failures

/-- One outcome is taken in alike at both roots. -/
theorem MovesCollection.receive (h : m.MovesCollection c c') (name : Except String String)
    {o o' : Outcome} (ho : m.MovesOutcome o o') :
    m.MovesResult (c.receive ⟨m.old, f, patterns⟩ name o)
      (c'.receive ⟨m.new, f, patterns⟩ name o') := by
  cases ho with
  | found hf =>
    cases name with
    | error message => exact .error message
    | ok producer => exact .ok (h.absorb producer hf)
  | failed e => exact .ok (h.fail e)
  | panicked message =>
    cases name with
    | error message => exact .error message
    | ok producer => exact .ok (h.fail _)

variable (name : ProducerKind → Except String String) {ask ask' : ProducerKind → Request → Outcome}

/-- Two producers that are asked are the same one and have the same to say. -/
def MovesStep (m : Relocation) (ask ask' : ProducerKind → Request → Outcome)
    (s s' : ProducerKind × Request) : Prop :=
  s.1 = s'.1 ∧ m.MovesOutcome (ask s.1 s.2) (ask' s'.1 s'.2)

/-- One producer after another is asked alike at both roots. -/
theorem MovesCollection.inquire (h : m.MovesCollection c c')
    {steps steps' : List (ProducerKind × Request)}
    (hsteps : List.Forall₂ (m.MovesStep ask ask') steps steps') :
    m.MovesInquiry (Collect.inquire ⟨m.old, f, patterns⟩ name ask c steps)
      (Collect.inquire ⟨m.new, f, patterns⟩ name ask' c' steps') := by
  induction hsteps generalizing c c' with
  | nil => exact ⟨rfl, .ok h⟩
  | @cons s s' steps steps' hs _ ih =>
    obtain ⟨k, r⟩ := s
    obtain ⟨k', r'⟩ := s'
    obtain ⟨hk, ho⟩ := hs
    obtain rfl : k = k' := hk
    have hreceive : m.MovesResult (c.receive ⟨m.old, f, patterns⟩ (name k) (ask k r))
        (c'.receive ⟨m.new, f, patterns⟩ (name k) (ask' k r')) := h.receive (name k) ho
    rw [Collect.inquire, Collect.inquire]
    generalize c.receive _ (name k) (ask k r) = result at hreceive
    generalize c'.receive _ (name k) (ask' k r') = result' at hreceive
    cases hreceive with
    | error message => exact ⟨rfl, .error (Collect.Abort.panic message)⟩
    | ok hc =>
      obtain ⟨hasked, hresult⟩ := ih hc
      exact ⟨congrArg (k :: ·) hasked, hresult⟩

end

/-! ## Whole collections -/

section
variable {p p' : Project} {ask ask' : ProducerKind → Request → Outcome}

/-- The same producers are to be asked at both roots. -/
theorem MovesProject.plan (h : m.MovesProject p p') (f : Filters) :
    List.Forall₂ (fun s s' => s.1 = s'.1) (Collect.plan p f) (Collect.plan p' f) := by
  unfold Collect.plan
  cases f.scanMode with
  | openFiles => exact .cons rfl .nil
  | workspace =>
    refine List.rel_append ?_ ?_
    · have hconfig := h.typeCheckConfig
      cases f.typeCheck with
      | false => exact .nil
      | true =>
        cases hc : p.typeCheckConfig with
        | none =>
          rw [hc] at hconfig
          rw [Option.isNone_iff_eq_none.1 (Option.isSome_eq_false_iff.1 hconfig.symm)]
          exact .nil
        | some config =>
          rw [hc] at hconfig
          obtain ⟨config', hc'⟩ := Option.isSome_iff_exists.1 hconfig.symm
          rw [hc']
          exact .cons rfl .nil
    · cases f.lint with
      | true => exact .cons rfl .nil
      | false => exact .nil

theorem MovesProject.excludes_eq (h : m.MovesProject p p') : p.excludes = p'.excludes := by
  rw [Project.excludes, Project.excludes, h.framework]

/-- If all who are to be asked have the same to say at both roots, they are asked with the same
result. -/
theorem MovesProject.collect (h : m.MovesProject p p') {fs fs' : FileSystem}
    (hroot : fs.isDirectory p.root = true) (hroot' : fs'.isDirectory p'.root = true)
    (refused : List String → Option String) (name : ProducerKind → Except String String)
    (f : Filters)
    (hask : ∀ k r r', (k, r) ∈ Collect.plan p f → (k, r') ∈ Collect.plan p' f →
      m.MovesOutcome (ask k r) (ask' k r')) :
    m.MovesInquiry (Collect.collect fs refused name ask p f)
      (Collect.collect fs' refused name ask' p' f) := by
  have hobstacle : Collect.obstacle fs' refused p'.root (f.exclude ++ p'.excludes) =
      Collect.obstacle fs refused p.root (f.exclude ++ p.excludes) := by
    rw [Collect.obstacle, Collect.obstacle, if_pos hroot, if_pos hroot', h.excludes_eq]
  have hplan := h.plan f
  have hsteps : List.Forall₂ (m.MovesStep ask ask') (Collect.plan p f) (Collect.plan p' f) := by
    refine List.forall₂_iff_zip.2 ⟨hplan.length_eq, ?_⟩
    intro (k, r) (k', r') hs
    obtain rfl : k = k' := List.forall₂_zip hplan hs
    obtain ⟨hmem, hmem'⟩ := List.of_mem_zip hs
    exact ⟨rfl, hask k r r' hmem hmem'⟩
  rw [Collect.collect, Collect.collect, hobstacle, Intake.ofProject, Intake.ofProject, h.root,
    h.root', h.excludes_eq]
  cases Collect.obstacle fs refused m.old (f.exclude ++ p'.excludes) with
  | some e => exact ⟨rfl, .error (Collect.Abort.scan e)⟩
  | none => exact movesCollection_empty.inquire name hsteps

end

end

end Relocation

end ProblemBoard
