import ProblemBoard.Proofs.Collect.Shares

/-!
# Filtering while collecting

Files are left out before their findings are looked at, and severities one finding after another.
The result is the same as if everything had been collected first and each problem had been asked on
its own whether it is to be kept: `Collect.collect_eq_filter` says so, with `Filters.Keeps` for the
question.  So stricter filters take problems away and do nothing else.
-/

namespace ProblemBoard

/-! ## What is kept -/

namespace Filters

/-- The filters that leave out no severity and no file. -/
def unrestricted (f : Filters) : Filters :=
  { f with showErrors := true, showWarnings := true, fileTypes := [], exclude := [] }

/-- Filters keep a problem of a project: they allow its severity and its file, and none of their
patterns and of those of the framework matches the label of the file. -/
structure Keeps (f : Filters) (p : Project) (q : Problem) : Prop where
  severity : f.allowsSeverity q.severity = true
  file : f.allowsFile q.file = true
  patterns : ∀ t ∈ f.exclude ++ p.excludes,
    Exclude.excludes (Exclude.ofTexts [t]) (p.root.label q.file) = false

theorem keeps_iff {f : Filters} {p : Project} {q : Problem} :
    f.Keeps p q ↔ f.allowsSeverity q.severity = true ∧
      (Intake.ofProject p f).keepsFile q.file = true := by
  have hpatterns : Exclude.excludes (Exclude.ofTexts (f.exclude ++ p.excludes))
        (p.root.label q.file) = false ↔
      ∀ t ∈ f.exclude ++ p.excludes,
        Exclude.excludes (Exclude.ofTexts [t]) (p.root.label q.file) = false := by
    rw [Exclude.excludes_ofTexts_eq_any, List.any_eq_false]
    simp only [Bool.not_eq_true]
  rw [Intake.keepsFile, Bool.and_eq_true, Bool.not_eq_true']
  constructor
  · intro h
    exact ⟨h.severity, h.file, hpatterns.2 h.patterns⟩
  · rintro ⟨hseverity, hfile, hexcludes⟩
    exact ⟨hseverity, hfile, hpatterns.1 hexcludes⟩

instance (f : Filters) (p : Project) (q : Problem) : Decidable (f.Keeps p q) :=
  decidable_of_iff' _ keeps_iff

end Filters

/-- The project with a framework that leaves nothing out. -/
def Project.withoutExcludes (p : Project) : Project :=
  { p with framework := p.framework.map fun f => { f with excludes := [] } }

theorem Project.excludes_withoutExcludes (p : Project) : p.withoutExcludes.excludes = [] := by
  unfold excludes withoutExcludes
  cases p.framework <;> rfl

theorem Project.componentChecker_withoutExcludes (p : Project) :
    p.withoutExcludes.componentChecker = p.componentChecker := by
  unfold componentChecker withoutExcludes
  cases p.framework <;> rfl

/-- What is left of a collection when it is filtered afterwards: the problems that are kept, and all
the rest. -/
def Collection.restrict (c : Collection) (keep : Problem → Bool) : Collection :=
  { c with problems := c.problems.filter keep }

/-- An inquiry whose collection, if there is one, is filtered afterwards. -/
def Collect.Inquiry.restrict (q : Inquiry) (keep : Problem → Bool) : Inquiry :=
  ⟨q.asked, q.result.map (·.restrict keep)⟩

/-! ## One producer -/

section
variable (p : Project) (f : Filters) (producer : String)

theorem Filters.allowsSeverity_unrestricted (v : Severity) :
    f.unrestricted.allowsSeverity v = true := by
  cases v <;> rfl

theorem Intake.keepsFile_unrestricted (file : Path) :
    (ofProject p.withoutExcludes f.unrestricted).keepsFile file = true := by
  simp [keepsFile, ofProject, Filters.unrestricted, Filters.allowsFile,
    Project.excludes_withoutExcludes, Exclude.excludes, Exclude.ofTexts]

/-- Filters that leave nothing out let every finding become a problem. -/
theorem Intake.fileProblems_unrestricted (file : Path) (xs : List Finding) :
    (ofProject p.withoutExcludes f.unrestricted).fileProblems producer file xs =
      xs.map fun x => x.problem (p.root.under file) producer := by
  rw [fileProblems]
  refine (if_pos (keepsFile_unrestricted p f _)).trans (List.filter_eq_self.2 ?_)
  intro q _
  exact f.allowsSeverity_unrestricted q.severity

/-- A file that is left out has no problem that is kept, and in one that is not left out severities
decide. -/
theorem Intake.fileProblems_eq_filter (file : Path) (xs : List Finding) :
    (ofProject p f).fileProblems producer file xs =
      ((ofProject p.withoutExcludes f.unrestricted).fileProblems producer file xs).filter
        fun q => f.Keeps p q := by
  have hfile : ∀ q ∈ xs.map (fun x => x.problem (p.root.under file) producer),
      q.file = p.root.under file := by
    intro q hq
    obtain ⟨x, -, rfl⟩ := List.mem_map.1 hq
    rfl
  rw [fileProblems_unrestricted, fileProblems]
  show (if (ofProject p f).keepsFile (p.root.under file) = true then _ else _) = _
  cases hkeeps : (ofProject p f).keepsFile (p.root.under file) with
  | true =>
    refine List.filter_congr fun q hq => ?_
    rw [Bool.eq_iff_iff, decide_eq_true_eq, Filters.keeps_iff, hfile q hq, hkeeps]
    simp [ofProject]
  | false =>
    symm
    apply List.filter_eq_nil_iff.2
    intro q hq
    rw [decide_eq_true_eq, Filters.keeps_iff, hfile q hq, hkeeps]
    simp

theorem Intake.problems_eq_filter (found : Findings) :
    (ofProject p f).problems producer found =
      ((ofProject p.withoutExcludes f.unrestricted).problems producer found).filter
        fun q => f.Keeps p q := by
  rw [problems, problems, List.filter_flatMap]
  congr 1
  funext e
  exact fileProblems_eq_filter p f producer e.1 e.2

end

section
variable (p : Project) (f : Filters) (c : Collection)

/-- To take in one outcome under filters is to take it in without them and to filter then. -/
theorem Collection.receive_restrict (name : Except String String) (o : Outcome) :
    (c.restrict (f.Keeps p ·)).receive (.ofProject p f) name o =
      (c.receive (.ofProject p.withoutExcludes f.unrestricted) name o).map
        (restrict · (f.Keeps p ·)) := by
  cases name with
  | error message => cases o <;> rfl
  | ok producer =>
    cases o with
    | failed e | panicked message => rfl
    | found found =>
      show Except.ok (absorb _ _ _ _) = Except.ok (restrict (absorb _ _ _ _) _)
      simp only [absorb, restrict, Intake.problems_eq_filter p f, List.filter_append]
      rfl

/-! ## All producers -/

namespace Collect

variable (name : ProducerKind → Except String String) (ask : ProducerKind → Request → Outcome)

theorem inquire_restrict (steps : List (ProducerKind × Request)) :
    inquire (.ofProject p f) name ask (c.restrict (f.Keeps p ·)) steps =
      (inquire (.ofProject p.withoutExcludes f.unrestricted) name ask c steps).restrict
        (f.Keeps p ·) := by
  induction steps generalizing c with
  | nil => rfl
  | cons s steps ih =>
    obtain ⟨k, r⟩ := s
    simp only [inquire, Collection.receive_restrict]
    cases c.receive (.ofProject p.withoutExcludes f.unrestricted) (name k) (ask k r) with
    | error message => rfl
    | ok d => simp only [Except.map, ih, Inquiry.restrict]

theorem plan_unrestricted : plan p.withoutExcludes f.unrestricted = plan p f := by
  unfold plan
  rw [p.componentChecker_withoutExcludes]
  rfl

/-- Where files may be collected at all, a collection under filters is the one without them, and
filtered then. -/
theorem collect_restrict {fs : FileSystem} {refused : List String → Option String}
    (hroot : fs.isDirectory p.root = true) (hnone : refused [] = none)
    (husable : refused (f.exclude ++ p.excludes) = none) :
    collect fs refused name ask p f =
      (collect fs refused name ask p.withoutExcludes f.unrestricted).restrict (f.Keeps p ·) := by
  have hopen : obstacle fs refused p.withoutExcludes.root
      (f.unrestricted.exclude ++ p.withoutExcludes.excludes) = none := by
    rw [p.excludes_withoutExcludes]
    simp [obstacle, Project.withoutExcludes, Filters.unrestricted, hroot, hnone]
  have hfiltered : obstacle fs refused p.root (f.exclude ++ p.excludes) = none := by
    simp [obstacle, hroot, husable]
  simp only [collect, hopen, hfiltered, plan_unrestricted]
  exact inquire_restrict p f .empty name ask (plan p f)

end Collect

end

/-! ## Stricter filters -/

namespace Filters

/-- Filters become stricter: a severity may be left out that was not, endings may go as long as one
stays, and patterns may come.  The producers stay the same. -/
structure Tightens (f g : Filters) : Prop where
  errors : g.showErrors = true → f.showErrors = true
  warnings : g.showWarnings = true → f.showWarnings = true
  fileTypes : f.fileTypes = [] ∨ g.fileTypes ≠ [] ∧ g.fileTypes ⊆ f.fileTypes
  exclude : f.exclude ⊆ g.exclude
  typeCheck : g.typeCheck = f.typeCheck
  lint : g.lint = f.lint
  scanMode : g.scanMode = f.scanMode

variable {f g : Filters} {p : Project} {q : Problem}

theorem Tightens.allowsSeverity (h : f.Tightens g) {v : Severity}
    (hv : g.allowsSeverity v = true) : f.allowsSeverity v = true := by
  cases v with
  | error => exact h.errors hv
  | warning => exact h.warnings hv
  | info | hint => rfl

theorem Tightens.allowsFile (h : f.Tightens g) {file : Path} (hfile : g.allowsFile file = true) :
    f.allowsFile file = true := by
  rcases h.fileTypes with hnone | ⟨hsome, hsub⟩
  · simp [Filters.allowsFile, hnone]
  · simp only [Filters.allowsFile, List.isEmpty_eq_false_iff.2 hsome, Bool.false_or] at hfile
    rw [Filters.allowsFile, Bool.or_eq_true]
    right
    cases hname : file.fileName with
    | none => simp [hname] at hfile
    | some name =>
      simp only [hname, List.any_eq_true] at hfile ⊢
      obtain ⟨ending, hending, hends⟩ := hfile
      exact ⟨ending, hsub hending, hends⟩

/-- What stricter filters keep was kept before. -/
theorem Tightens.keeps (h : f.Tightens g) (hq : g.Keeps p q) : f.Keeps p q where
  severity := h.allowsSeverity hq.severity
  file := h.allowsFile hq.file
  patterns := by
    intro t ht
    apply hq.patterns t
    rcases List.mem_append.1 ht with ht | ht
    · exact List.mem_append_left _ (h.exclude ht)
    · exact List.mem_append_right _ ht

theorem Tightens.unrestricted_eq (h : f.Tightens g) : g.unrestricted = f.unrestricted := by
  simp [unrestricted, h.typeCheck, h.lint, h.scanMode]

end Filters

theorem Collection.restrict_of_tightens {f g : Filters} (h : f.Tightens g) (p : Project)
    (c : Collection) :
    c.restrict (g.Keeps p ·) = (c.restrict (f.Keeps p ·)).restrict (g.Keeps p ·) := by
  simp only [restrict, List.filter_filter, Collection.mk.injEq, and_self, and_true]
  refine List.filter_congr fun q _ => ?_
  rw [Bool.eq_iff_iff, Bool.and_eq_true, decide_eq_true_eq, decide_eq_true_eq]
  exact ⟨fun hg => ⟨hg, h.keeps hg⟩, And.left⟩

namespace Collect

/-- In a workspace whose root is a directory, and with patterns that can be used, the problems
collected under filters are those collected when no severity, no ending and no pattern leaves
anything out, as far as the filters keep them, in their order and each as often; the same producers
are asked, and what is collected of the program as a whole and the failures are the same.  Something
is collected unless a producer panics when asked for its name.  So stricter filters take problems
away, and neither bring any nor move them. -/
theorem collect_eq_filter (fs : FileSystem) (refused : List String → Option String)
    (name : ProducerKind → Except String String) (ask : ProducerKind → Request → Outcome)
    (p : Project) (f : Filters) (hroot : fs.isDirectory p.root = true)
    (hnone : refused [] = none) (husable : refused (f.exclude ++ p.excludes) = none) :
    collect fs refused name ask p f =
        (collect fs refused name ask p.withoutExcludes f.unrestricted).restrict (f.Keeps p ·) ∧
      ((∀ k, ∃ n, name k = .ok n) → ∃ c, (collect fs refused name ask p f).result = .ok c) ∧
      ∀ g, f.Tightens g → refused (g.exclude ++ p.excludes) = none →
        ∀ c, (collect fs refused name ask p f).result = .ok c →
          ∃ d, (collect fs refused name ask p g).result = .ok d ∧
            d.problems.Sublist c.problems ∧ d.global = c.global ∧ d.failures = c.failures := by
  have hfiltered := collect_restrict p f name ask hroot hnone husable
  refine ⟨hfiltered, ?_, ?_⟩
  · intro hname
    exact exists_collection hroot husable hname ask
  · intro g hg hgusable c hc
    have hgfiltered := collect_restrict p g name ask hroot hnone hgusable
    rw [hfiltered, Inquiry.restrict] at hc
    rw [hgfiltered, hg.unrestricted_eq, Inquiry.restrict]
    cases hall : (collect fs refused name ask p.withoutExcludes f.unrestricted).result with
    | error e =>
      rw [hall] at hc
      cases hc
    | ok all =>
      rw [hall] at hc
      obtain rfl := Except.ok.inj hc
      refine ⟨all.restrict (g.Keeps p ·), rfl, ?_, rfl, rfl⟩
      rw [Collection.restrict_of_tightens hg]
      exact List.filter_sublist

/-- Of four files one lies in what the framework builds and one in what the user leaves out; a
warning is left out in the third one, and the ending `.js` goes when the filters become stricter. -/
theorem collect_eq_filter_stricter :
    let fs : FileSystem := ⟨fun _ => .ok .directory⟩
    let p : Project :=
      { Project.bare ⟨"/ws"⟩ with framework := some ⟨"Next.js", ["**/.next/**"], false⟩ }
    let finding (grade : Grade) (message : String) : Finding :=
      ⟨⟨1, 1⟩, none, .one, grade, message, none, none⟩
    let found := (((Findings.empty.append ⟨"/ws/.next/a.js"⟩ [finding .error "built"]).append
      ⟨"dist/b.ts"⟩ [finding .error "left out"]).append
      ⟨"src/c.ts"⟩ [finding .warning "weak", finding .error "kept"]).append
      ⟨"src/d.JS"⟩ [finding .hint "plain"]
    let ask : ProducerKind → Request → Outcome := fun _ _ => .found found
    let collected (p : Project) (f : Filters) : Inquiry :=
      collect fs Exclude.noLimit (fun _ => .ok "lint") ask p f
    let f : Filters := ⟨true, false, true, true, [".ts", ".js"], ["**/dist/**"], .workspace⟩
    let g : Filters := { f with fileTypes := [".ts"] }
    let messages (q : Inquiry) : Option (List String) :=
      q.result.toOption.map fun c => c.problems.map Problem.message
    fs.isDirectory p.root = true ∧
      messages (collected p.withoutExcludes f.unrestricted) =
        some ["built", "left out", "weak", "kept", "plain"] ∧
      collected p f = (collected p.withoutExcludes f.unrestricted).restrict (f.Keeps p ·) ∧
      messages (collected p f) = some ["kept", "plain"] ∧
      f.Tightens g ∧ messages (collected p g) = some ["kept"] ∧
      ∃ c d, (collected p f).result = .ok c ∧ (collected p g).result = .ok d ∧
        d.problems.Sublist c.problems := by
  intro fs p finding found ask collected f g messages
  have htightens : f.Tightens g :=
    ⟨id, id, .inr ⟨by simp [g], by simp [f, g]⟩, List.Subset.refl _, rfl, rfl, rfl⟩
  obtain ⟨hlaw, hok, hstricter⟩ :=
    collect_eq_filter fs Exclude.noLimit (fun _ => .ok "lint") ask p f rfl rfl rfl
  obtain ⟨c, hc⟩ := hok fun _ => ⟨_, rfl⟩
  obtain ⟨d, hd, hsub, -, -⟩ := hstricter g htightens rfl c hc
  exact ⟨rfl, by decide +kernel, hlaw, by decide +kernel, htightens, by decide +kernel,
    c, d, hc, hd, hsub⟩

end Collect

end ProblemBoard
