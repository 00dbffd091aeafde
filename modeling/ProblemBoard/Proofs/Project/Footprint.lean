import ProblemBoard.Project.Resolution
import ProblemBoard.Proofs.Path.Entry

/-!
# What a resolution looks at

A resolution looks at a fixed set of names in the workspace root, and at the files that the user
names.  Two states of the file system that agree there resolve to the same project.

Every name of the fixed set passes the test of `Project.isAffectedBy`, in every workspace root.
The files that the user names may have any name, and the test does not see them: a change of
such a file can change the project although the test dismisses it.
-/

namespace ProblemBoard

variable {fs₁ fs₂ : FileSystem}

/-! ## Looking at one entry -/

theorem FileSystem.isFile_congr {p : Path} (h : fs₁.entry p = fs₂.entry p) :
    fs₁.isFile p = fs₂.isFile p := by
  rw [isFile, isFile, h]

theorem FileSystem.readText_congr {p : Path} (h : fs₁.entry p = fs₂.entry p) :
    fs₁.readText p = fs₂.readText p := by
  rw [readText, readText, h]

/-! ## Looking for names -/

variable {root : Path}

theorem FileSystem.firstFile_congr {names : List String}
    (h : ∀ n ∈ names, fs₁.isFile (root.child n) = fs₂.isFile (root.child n)) :
    fs₁.firstFile root names = fs₂.firstFile root names := by
  unfold FileSystem.firstFile
  rw [← List.head?_filter, ← List.head?_filter]
  congr 1
  apply List.filter_congr
  intro p hp
  obtain ⟨n, hn, rfl⟩ := List.mem_map.1 hp
  exact h n hn

theorem Framework.Signature.fits_congr {s : Signature} (manifest : Option Manifest)
    (h : ∀ n ∈ s.markers, fs₁.isFile (root.child n) = fs₂.isFile (root.child n)) :
    s.fits fs₁ root manifest = s.fits fs₂ root manifest := by
  have hany : (s.markers.any fun n => fs₁.isFile (root.child n)) =
      s.markers.any fun n => fs₂.isFile (root.child n) := by
    rw [Bool.eq_iff_iff, List.any_eq_true, List.any_eq_true]
    exact exists_congr fun n => and_congr_right fun hn => by rw [h n hn]
  rw [fits, fits, hany]

theorem Framework.detect_congr (manifest : Option Manifest) (typed : Bool)
    (h : ∀ s ∈ signatures, ∀ n ∈ s.markers,
      fs₁.isFile (root.child n) = fs₂.isFile (root.child n)) :
    detect fs₁ root manifest typed = detect fs₂ root manifest typed := by
  have hfind : signatures.find? (·.fits fs₁ root manifest) =
      signatures.find? (·.fits fs₂ root manifest) := by
    rw [← List.head?_filter, ← List.head?_filter]
    congr 1
    exact List.filter_congr fun s hs => Signature.fits_congr manifest (h s hs)
  rw [detect, detect, hfind]

theorem LintConfig.discover_congr (manifest : Option Manifest)
    (h : ∀ n ∈ flatNames ++ legacyNames,
      fs₁.isFile (root.child n) = fs₂.isFile (root.child n)) :
    discover fs₁ root manifest = discover fs₂ root manifest := by
  have hflat := FileSystem.firstFile_congr fun n hn => h n (List.mem_append_left _ hn)
  have hlegacy := FileSystem.firstFile_congr fun n hn => h n (List.mem_append_right _ hn)
  rw [discover, discover, hflat, hlegacy]

theorem Manifest.read_congr (h : fs₁.entry (path root) = fs₂.entry (path root)) :
    read fs₁ root = read fs₂ root := by
  rw [read, read, FileSystem.isFile_congr h, FileSystem.readText_congr h]

/-! ## Resolutions -/

/-- The files that the user names. -/
def Overrides.named (o : Overrides) : List Path := o.typeCheck.toList ++ o.lint.toList

namespace Project

/-- The names that a resolution looks for in the workspace root. -/
def probed : List String :=
  Manifest.fileName ::
    (typeCheckNames ++ (LintConfig.flatNames ++ LintConfig.legacyNames) ++
      Framework.signatures.flatMap (·.markers))

theorem tryOverride_congr (kind : ConfigKind) {named : Option Path}
    (h : ∀ p ∈ named.toList, fs₁.isFile (root.under p) = fs₂.isFile (root.under p)) :
    tryOverride fs₁ root kind named = tryOverride fs₂ root kind named := by
  cases named with
  | none => rfl
  | some p => simp only [tryOverride, h p (.head _)]

/-- The names that a resolution looks for in the workspace root beside the manifest, only to see
whether they are files. -/
def searched : List String :=
  typeCheckNames ++ (LintConfig.flatNames ++ LintConfig.legacyNames) ++
    Framework.signatures.flatMap (·.markers)

section
variable (hsearched : ∀ n ∈ searched, fs₁.isFile (root.child n) = fs₂.isFile (root.child n))
include hsearched

theorem resolveTypeCheck_congr {named : Option Path}
    (hnamed : ∀ p ∈ named.toList, fs₁.isFile (root.under p) = fs₂.isFile (root.under p)) :
    resolveTypeCheck fs₁ root named = resolveTypeCheck fs₂ root named := by
  have hfirst : fs₁.firstFile root typeCheckNames = fs₂.firstFile root typeCheckNames :=
    FileSystem.firstFile_congr fun n hn =>
      hsearched n (List.mem_append_left _ (List.mem_append_left _ hn))
  rw [resolveTypeCheck, resolveTypeCheck, tryOverride_congr .typeCheck hnamed, hfirst]

theorem resolveLint_congr (manifest : Option Manifest) {named : Option Path}
    (hnamed : ∀ p ∈ named.toList, fs₁.isFile (root.under p) = fs₂.isFile (root.under p)) :
    resolveLint fs₁ root manifest named = resolveLint fs₂ root manifest named := by
  have hdiscover : LintConfig.discover fs₁ root manifest = LintConfig.discover fs₂ root manifest :=
    LintConfig.discover_congr manifest fun n hn =>
      hsearched n (List.mem_append_left _ (List.mem_append_right _ hn))
  rw [resolveLint, resolveLint, tryOverride_congr .lint hnamed, hdiscover]

theorem detect_congr (manifest : Option Manifest) (typed : Bool) :
    Framework.detect fs₁ root manifest typed = Framework.detect fs₂ root manifest typed := by
  refine Framework.detect_congr manifest typed fun s hs n hn => hsearched n ?_
  exact List.mem_append_right _ (List.mem_flatMap.2 ⟨s, hs, hn⟩)

end

/-- A resolution looks at nothing else than the probed names and the files that the user names,
and of the latter only at whether they are files. -/
theorem resolve_congr {o : Overrides}
    (hprobed : ∀ n ∈ probed, fs₁.entry (root.child n) = fs₂.entry (root.child n))
    (hnamed : ∀ p ∈ o.named, fs₁.isFile (root.under p) = fs₂.isFile (root.under p)) :
    resolve fs₁ root o = resolve fs₂ root o := by
  have hsearched : ∀ n ∈ searched, fs₁.isFile (root.child n) = fs₂.isFile (root.child n) :=
    fun n hn => FileSystem.isFile_congr (hprobed n (.tail _ hn))
  have hmanifest : resolveManifest fs₁ root = resolveManifest fs₂ root := by
    rw [resolveManifest, resolveManifest, Manifest.read_congr (hprobed _ (.head _))]
  have htype := resolveTypeCheck_congr hsearched fun p hp => hnamed p (List.mem_append_left _ hp)
  have hlint := fun m =>
    resolveLint_congr hsearched m fun p hp => hnamed p (List.mem_append_right _ hp)
  simp only [resolve, hmanifest, htype, hlint, detect_congr hsearched]

/-! ## The test for a change -/

theorem isName_of_mem_probed : ∀ n ∈ probed, Path.IsName n := by decide +kernel

theorem isConfigName_of_mem_probed {n : String} (h : n ∈ probed) : isConfigName n = true := by
  simp only [probed, List.mem_cons, List.mem_append, List.mem_flatMap] at h
  simp only [isConfigName, Framework.isMarker, Bool.or_eq_true, decide_eq_true_eq,
    List.contains_iff_mem, List.any_eq_true]
  rcases h with h | (h | h | h) | h
  · simp [h]
  · simp [h]
  · simp [h]
  · simp [h]
  · exact .inr h

/-- The test sees every probed name, in every workspace root. -/
theorem isAffectedBy_child {n : String} (h : n ∈ probed) :
    isAffectedBy (root.child n) = true := by
  rw [isAffectedBy, root.fileName_child (isName_of_mem_probed n h), Option.any_some]
  exact isConfigName_of_mem_probed h

/-- A change that the test dismisses leaves the project as it is, unless a file that the user
names comes or goes. -/
theorem dismissed_changes_harmless {o : Overrides}
    (h : ∀ p, isAffectedBy p = true → fs₁.entry p = fs₂.entry p)
    (hnamed : ∀ p ∈ o.named, isAffectedBy (root.under p) = false →
      fs₁.isFile (root.under p) = fs₂.isFile (root.under p)) :
    resolve fs₁ root o = resolve fs₂ root o := by
  apply resolve_congr
  · intro n hn
    exact h _ (isAffectedBy_child hn)
  · intro p hp
    cases hseen : isAffectedBy (root.under p) with
    | true => exact FileSystem.isFile_congr (h _ hseen)
    | false => exact hnamed p hp hseen

/-- A workspace with a configuration that has a name of the user's own. -/
def ownConfig : List (Path × Entry) := [(⟨"/ws/checks.json"⟩, .file (.ok []) false)]

/-- The same workspace with a source file. -/
def ownConfigAndSource : List (Path × Entry) :=
  (⟨"/ws/a.ts"⟩, .file (.ok []) false) :: ownConfig

/-- A source file comes into a workspace whose type-check configuration the user names: the
project stays the same, with that configuration. -/
theorem dismissed_changes_harmless_source :
    ∃ fs₁ fs₂ : FileSystem, fs₁.isFile ⟨"/ws/a.ts"⟩ = false ∧ fs₂.isFile ⟨"/ws/a.ts"⟩ = true ∧
      (∀ p, isAffectedBy p = true → fs₁.entry p = fs₂.entry p) ∧
      (∀ p ∈ [⟨"checks.json"⟩], isAffectedBy (Path.under ⟨"/ws"⟩ p) = false ∧
        fs₁.isFile (Path.under ⟨"/ws"⟩ p) = fs₂.isFile (Path.under ⟨"/ws"⟩ p)) ∧
      resolve fs₁ ⟨"/ws"⟩ ⟨some ⟨"checks.json"⟩, none⟩ =
        resolve fs₂ ⟨"/ws"⟩ ⟨some ⟨"checks.json"⟩, none⟩ ∧
      (resolve fs₂ ⟨"/ws"⟩ ⟨some ⟨"checks.json"⟩, none⟩).typeCheckConfig =
        some ⟨"/ws/checks.json"⟩ := by
  have hseen : ∀ p, isAffectedBy p = true →
      (FileSystem.holding ownConfig).entry p =
        (FileSystem.holding ownConfigAndSource).entry p := by
    intro p hp
    refine (FileSystem.entry_holding_cons ?_).symm
    rintro rfl
    revert hp
    decide
  have hnamed : ∀ p ∈ [⟨"checks.json"⟩], isAffectedBy (Path.under ⟨"/ws"⟩ p) = false ∧
      (FileSystem.holding ownConfig).isFile (Path.under ⟨"/ws"⟩ p) =
        (FileSystem.holding ownConfigAndSource).isFile (Path.under ⟨"/ws"⟩ p) := by
    decide
  refine ⟨_, _, by decide, by decide, hseen, hnamed, ?_, by decide⟩
  exact dismissed_changes_harmless hseen fun p hp _ => (hnamed p hp).2

/-- The test does not see the files that the user names: a configuration with a name of the
user's own comes into the workspace, and the project changes. -/
theorem dismissed_change_of_named_file :
    ¬ ∀ (fs₁ fs₂ : FileSystem) (root : Path) (o : Overrides),
      (∀ p, isAffectedBy p = true → fs₁.entry p = fs₂.entry p) →
        resolve fs₁ root o = resolve fs₂ root o := by
  intro h
  have hseen : ∀ p, isAffectedBy p = true →
      (FileSystem.holding []).entry p = (FileSystem.holding ownConfig).entry p := by
    intro p hp
    refine (FileSystem.entry_holding_cons ?_).symm
    rintro rfl
    revert hp
    decide
  have heq := h _ _ ⟨"/ws"⟩ ⟨some ⟨"checks.json"⟩, none⟩ hseen
  have hconfig := congrArg Project.typeCheckConfig heq
  revert hconfig
  decide

end Project

end ProblemBoard
