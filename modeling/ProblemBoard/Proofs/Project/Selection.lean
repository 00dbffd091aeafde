import ProblemBoard.Proofs.Project.Classification
import ProblemBoard.Proofs.Project.Footprint

/-!
# What a resolution selects

Which configurations a resolution selects, and of what it warns, said by what stands in the
workspace.  `TypeCheckChoice` and `LintChoice` give the order of preference, one case for each place
where a configuration may be; `Warned` says which warnings there are and in which order.

What cannot be used is as good as absent.  A file the user names that is not there leaves what is
found without it, and so does a manifest that cannot be read: `Project.selects_and_warns` says so
beside the rest.
-/

namespace ProblemBoard

variable {fs fs' : FileSystem} {root : Path}

/-! ## Tables of names -/

namespace FileSystem

/-- The path of the first name of a table that is a file in a directory. -/
def IsFirstFile (fs : FileSystem) (dir : Path) (names : List String) (p : Path) : Prop :=
  ∃ before name after, names = before ++ name :: after ∧
    (∀ n ∈ before, fs.isFile (dir.child n) = false) ∧
    fs.isFile (dir.child name) = true ∧ p = dir.child name

/-- No name of a table is a file in a directory. -/
def HasNone (fs : FileSystem) (dir : Path) (names : List String) : Prop :=
  ∀ n ∈ names, fs.isFile (dir.child n) = false

theorem firstFile_eq_some_iff {names : List String} {p : Path} :
    fs.firstFile root names = some p ↔ fs.IsFirstFile root names p := by
  rw [firstFile, List.find?_map, Option.map_eq_some_iff]
  constructor
  · rintro ⟨name, hfind, rfl⟩
    obtain ⟨hfile, before, after, hnames, hbefore⟩ := List.find?_eq_some_iff_append.1 hfind
    refine ⟨before, name, after, hnames, fun n hn => ?_, hfile, rfl⟩
    simpa using hbefore n hn
  · rintro ⟨before, name, after, hnames, hbefore, hfile, rfl⟩
    refine ⟨name, List.find?_eq_some_iff_append.2 ⟨hfile, before, after, hnames, ?_⟩, rfl⟩
    intro n hn
    simpa using hbefore n hn

theorem firstFile_eq_none_iff {names : List String} :
    fs.firstFile root names = none ↔ fs.HasNone root names := by
  simp [firstFile, HasNone]

theorem IsFirstFile.isFile {names : List String} {p : Path} (h : fs.IsFirstFile root names p) :
    fs.isFile p = true := by
  obtain ⟨_, _, _, _, _, hfile, rfl⟩ := h
  exact hfile

end FileSystem

/-! ## Manifests -/

namespace Manifest

/-- The manifest can be used, and a lint configuration other than `null` is embedded in it. -/
def Embeds (fs : FileSystem) (root : Path) : Prop :=
  ∃ m v, Usable fs root m ∧ m.lintConfig = some v ∧ v ≠ .null

/-- Why a file that is there cannot be used as a manifest. -/
inductive Unusable (fs : FileSystem) (root : Path) : ManifestError → Prop where
  | unreadable {e : ReadError} :
      fs.isFile (path root) = true → fs.readText (path root) = .error e →
      Unusable fs root (.read e)
  | malformed {text : String} {fault : Json.Fault} :
      fs.isFile (path root) = true → fs.readText (path root) = .ok text →
      ofText text = .error fault → Unusable fs root (.parse fault)

theorem read_eq_error_iff {cause : ManifestError} :
    read fs root = .error cause ↔ Unusable fs root cause := by
  constructor
  · intro h
    unfold read at h
    split at h
    · next hfile =>
      split at h
      · next hread =>
        cases h
        exact .unreadable hfile hread
      · next hread =>
        split at h
        · next hparse =>
          cases h
          exact .malformed hfile hread hparse
        · cases h
    · cases h
  · intro h
    cases h with
    | unreadable hfile hread => rw [read, if_pos hfile, hread]
    | malformed hfile hread hparse => rw [read, if_pos hfile, hread]; simp only [hparse]

theorem read_of_not_isFile (h : fs.isFile (path root) = false) : read fs root = .ok none := by
  rw [read, h]
  rfl

theorem embedsLintConfig_iff {m : Manifest} :
    m.embedsLintConfig = true ↔ ∃ v, m.lintConfig = some v ∧ v ≠ .null := by
  unfold embedsLintConfig
  cases m.lintConfig with
  | none => simp
  | some v => cases v <;> simp [Json.Value.isNull]

end Manifest

theorem Project.any_embedsLintConfig_iff :
    (resolveManifest fs root).1.any (·.embedsLintConfig) = true ↔ Manifest.Embeds fs root := by
  rw [Option.any_eq_true]
  constructor
  · rintro ⟨m, hm, hembeds⟩
    obtain ⟨v, hv, hne⟩ := Manifest.embedsLintConfig_iff.1 hembeds
    exact ⟨m, v, resolveManifest_eq_some_iff.1 hm, hv, hne⟩
  · rintro ⟨m, v, husable, hv, hne⟩
    exact ⟨m, resolveManifest_eq_some_iff.2 husable, Manifest.embedsLintConfig_iff.2 ⟨v, hv, hne⟩⟩

namespace Project

/-! ## Files that the user names -/

/-- The user names a file, by an absolute path or as seen from the workspace root. -/
def NamesFile (fs : FileSystem) (root : Path) (named : Option Path) (p : Path) : Prop :=
  ∃ q, named = some q ∧ root.under q = p ∧ fs.isFile p = true

section
variable {kind : ConfigKind} {named : Option Path}

theorem tryOverride_eq_some_iff {p : Path} :
    (tryOverride fs root kind named).1 = some p ↔ NamesFile fs root named p := by
  cases named with
  | none => simp [tryOverride, NamesFile]
  | some q =>
    simp only [tryOverride, NamesFile, Option.some.injEq, exists_eq_left']
    cases hfile : fs.isFile (root.under q) with
    | true => simpa using fun h : root.under q = p => h ▸ hfile
    | false => simpa using fun h : root.under q = p => h ▸ hfile

theorem tryOverride_eq_none_iff :
    (tryOverride fs root kind named).1 = none ↔ ∀ p, ¬NamesFile fs root named p := by
  rw [Option.eq_none_iff_forall_ne_some]
  exact forall_congr' fun p => not_congr tryOverride_eq_some_iff

/-- The user is warned of a named path that is no file. -/
theorem mem_tryOverride_iff {w : ProjectWarning} :
    w ∈ (tryOverride fs root kind named).2 ↔
      ∃ q, named = some q ∧ fs.isFile (root.under q) = false ∧
        w = .overrideNotFound kind (root.under q) := by
  cases named with
  | none => simp [tryOverride]
  | some q =>
    simp only [tryOverride, Option.some.injEq, exists_eq_left']
    cases fs.isFile (root.under q) <;> simp

end

/-! ## Choices -/

/-- The type-check configuration of a workspace: the file that the user names, else the first
conventional name. -/
inductive TypeCheckChoice (fs : FileSystem) (root : Path) (named : Option Path) :
    Option Path → Prop where
  | named {p : Path} : NamesFile fs root named p → TypeCheckChoice fs root named (some p)
  | conventional {p : Path} :
      (∀ q, ¬NamesFile fs root named q) → fs.IsFirstFile root typeCheckNames p →
      TypeCheckChoice fs root named (some p)
  | nothing :
      (∀ q, ¬NamesFile fs root named q) → fs.HasNone root typeCheckNames →
      TypeCheckChoice fs root named none

/-- The lint configuration of a workspace: the file that the user names, else the first flat name,
else the first legacy name, else the manifest if a configuration is embedded in it. -/
inductive LintChoice (fs : FileSystem) (root : Path) (named : Option Path) :
    Option LintConfig → Prop where
  | named {p : Path} :
      NamesFile fs root named p → LintChoice fs root named (some (LintConfig.ofPath p))
  | flat {p : Path} :
      (∀ q, ¬NamesFile fs root named q) → fs.IsFirstFile root LintConfig.flatNames p →
      LintChoice fs root named (some ⟨.flat, p⟩)
  | legacy {p : Path} :
      (∀ q, ¬NamesFile fs root named q) → fs.HasNone root LintConfig.flatNames →
      fs.IsFirstFile root LintConfig.legacyNames p →
      LintChoice fs root named (some ⟨.legacy, p⟩)
  | manifest :
      (∀ q, ¬NamesFile fs root named q) → fs.HasNone root LintConfig.flatNames →
      fs.HasNone root LintConfig.legacyNames → Manifest.Embeds fs root →
      LintChoice fs root named (some ⟨.packageManifest, Manifest.path root⟩)
  | nothing :
      (∀ q, ¬NamesFile fs root named q) → fs.HasNone root LintConfig.flatNames →
      fs.HasNone root LintConfig.legacyNames → ¬Manifest.Embeds fs root →
      LintChoice fs root named none

section
variable {o : Overrides}

theorem typeCheckConfig_of_named {p : Path} (h : NamesFile fs root o.typeCheck p) :
    (resolve fs root o).typeCheckConfig = some p := by
  rw [typeCheckConfig_resolve, tryOverride_eq_some_iff.2 h]
  rfl

theorem typeCheckConfig_of_not_named (h : ∀ q, ¬NamesFile fs root o.typeCheck q) :
    (resolve fs root o).typeCheckConfig = fs.firstFile root typeCheckNames := by
  rw [typeCheckConfig_resolve, tryOverride_eq_none_iff.2 h]
  rfl

theorem typeCheckConfig_eq_iff {r : Option Path} :
    (resolve fs root o).typeCheckConfig = r ↔ TypeCheckChoice fs root o.typeCheck r := by
  constructor
  · rintro rfl
    by_cases hnamed : ∃ p, NamesFile fs root o.typeCheck p
    · obtain ⟨p, hp⟩ := hnamed
      rw [typeCheckConfig_of_named hp]
      exact .named hp
    · rw [not_exists] at hnamed
      rw [typeCheckConfig_of_not_named hnamed]
      cases hfirst : fs.firstFile root typeCheckNames with
      | some p => exact .conventional hnamed (FileSystem.firstFile_eq_some_iff.1 hfirst)
      | none => exact .nothing hnamed (FileSystem.firstFile_eq_none_iff.1 hfirst)
  · intro h
    cases h with
    | named hp => exact typeCheckConfig_of_named hp
    | conventional hnamed hfirst =>
      rw [typeCheckConfig_of_not_named hnamed, FileSystem.firstFile_eq_some_iff.2 hfirst]
    | nothing hnamed hnone =>
      rw [typeCheckConfig_of_not_named hnamed, FileSystem.firstFile_eq_none_iff.2 hnone]

theorem lintConfig_of_named {p : Path} (h : NamesFile fs root o.lint p) :
    (resolve fs root o).lintConfig = some (LintConfig.ofPath p) := by
  rw [lintConfig_resolve, tryOverride_eq_some_iff.2 h]
  rfl

theorem lintConfig_of_not_named (h : ∀ q, ¬NamesFile fs root o.lint q) :
    (resolve fs root o).lintConfig = LintConfig.discover fs root (resolveManifest fs root).1 := by
  rw [lintConfig_resolve, tryOverride_eq_none_iff.2 h]
  rfl

theorem lintConfig_eq_iff {r : Option LintConfig} :
    (resolve fs root o).lintConfig = r ↔ LintChoice fs root o.lint r := by
  constructor
  · rintro rfl
    by_cases hnamed : ∃ p, NamesFile fs root o.lint p
    · obtain ⟨p, hp⟩ := hnamed
      rw [lintConfig_of_named hp]
      exact .named hp
    rw [not_exists] at hnamed
    rw [lintConfig_of_not_named hnamed, LintConfig.discover]
    cases hflat : fs.firstFile root LintConfig.flatNames with
    | some p => exact .flat hnamed (FileSystem.firstFile_eq_some_iff.1 hflat)
    | none =>
      rw [FileSystem.firstFile_eq_none_iff] at hflat
      cases hlegacy : fs.firstFile root LintConfig.legacyNames with
      | some p => exact .legacy hnamed hflat (FileSystem.firstFile_eq_some_iff.1 hlegacy)
      | none =>
        rw [FileSystem.firstFile_eq_none_iff] at hlegacy
        dsimp only
        split
        · next hany => exact .manifest hnamed hflat hlegacy (any_embedsLintConfig_iff.1 hany)
        · next hany => exact .nothing hnamed hflat hlegacy (mt any_embedsLintConfig_iff.2 hany)
  · intro h
    cases h with
    | named hp => exact lintConfig_of_named hp
    | flat hnamed hflat =>
      rw [lintConfig_of_not_named hnamed, LintConfig.discover,
        FileSystem.firstFile_eq_some_iff.2 hflat]
    | legacy hnamed hflat hlegacy =>
      rw [lintConfig_of_not_named hnamed, LintConfig.discover,
        FileSystem.firstFile_eq_none_iff.2 hflat, FileSystem.firstFile_eq_some_iff.2 hlegacy]
    | manifest hnamed hflat hlegacy hembeds =>
      rw [lintConfig_of_not_named hnamed, LintConfig.discover,
        FileSystem.firstFile_eq_none_iff.2 hflat, FileSystem.firstFile_eq_none_iff.2 hlegacy]
      exact if_pos (any_embedsLintConfig_iff.2 hembeds)
    | nothing hnamed hflat hlegacy hembeds =>
      rw [lintConfig_of_not_named hnamed, LintConfig.discover,
        FileSystem.firstFile_eq_none_iff.2 hflat, FileSystem.firstFile_eq_none_iff.2 hlegacy]
      exact if_neg (mt any_embedsLintConfig_iff.1 hembeds)

/-- A type-check configuration that is resolved is a file. -/
theorem TypeCheckChoice.isFile {named : Option Path} {p : Path}
    (h : TypeCheckChoice fs root named (some p)) : fs.isFile p = true := by
  cases h with
  | named hp =>
    obtain ⟨_, _, _, hfile⟩ := hp
    exact hfile
  | conventional _ hfirst => exact hfirst.isFile

/-- A lint configuration that is resolved is a file.  It is a manifest only if the user names one,
or if a configuration is embedded in it. -/
theorem LintChoice.isFile {named : Option Path} {c : LintConfig}
    (h : LintChoice fs root named (some c)) :
    fs.isFile c.path = true ∧
      (c.format = .packageManifest → NamesFile fs root named c.path ∨ Manifest.Embeds fs root) := by
  cases h with
  | named hp =>
    refine ⟨?_, fun _ => .inl hp⟩
    obtain ⟨_, _, _, hfile⟩ := hp
    exact hfile
  | flat _ hfirst => exact ⟨hfirst.isFile, nofun⟩
  | legacy _ _ hfirst => exact ⟨hfirst.isFile, nofun⟩
  | manifest _ _ _ hembeds =>
    refine ⟨?_, fun _ => .inr hembeds⟩
    obtain ⟨_, _, ⟨hfile, -⟩, -⟩ := hembeds
    exact hfile

end

end Project

/-! ## Warnings -/

/-- What the user names for a kind of configurations. -/
def Overrides.of (o : Overrides) : ConfigKind → Option Path
  | .typeCheck => o.typeCheck
  | .lint => o.lint

/-- That nothing was found of a kind of configurations. -/
def ConfigKind.notFound (root : Path) : ConfigKind → ProjectWarning
  | .typeCheck => .typeCheckConfigNotFound root
  | .lint => .lintConfigNotFound root

/-- The place of the first warning about a kind of configurations. -/
def ConfigKind.rank : ConfigKind → Nat
  | .typeCheck => 1
  | .lint => 3

/-- The place of a warning: the manifest comes first, then the type checker, then the linter, and
for each of the two what the user names comes in front of what was found. -/
def ProjectWarning.rank : ProjectWarning → Nat
  | .manifestUnreadable _ _ => 0
  | .overrideNotFound kind _ => kind.rank
  | .typeCheckConfigNotFound _ => ConfigKind.typeCheck.rank + 1
  | .lintConfigNotFound _ => ConfigKind.lint.rank + 1

@[simp] theorem ConfigKind.rank_notFound (kind : ConfigKind) :
    (kind.notFound root).rank = kind.rank + 1 := by
  cases kind <;> rfl

namespace Project

/-- The warnings of a project: each at most once and in the order of their places, and which of them
there are. -/
structure Warned (fs : FileSystem) (root : Path) (o : Overrides) (p : Project) : Prop where
  order : p.warnings.Pairwise fun v w => v.rank < w.rank
  manifest : ∀ path cause, .manifestUnreadable path cause ∈ p.warnings ↔
    path = Manifest.path root ∧ Manifest.Unusable fs root cause
  named : ∀ kind path, .overrideNotFound kind path ∈ p.warnings ↔
    ∃ q, o.of kind = some q ∧ path = root.under q ∧ fs.isFile path = false
  typeCheck : ∀ r, .typeCheckConfigNotFound r ∈ p.warnings ↔
    r = root ∧ p.typeCheckConfig = none
  lint : ∀ r, .lintConfigNotFound r ∈ p.warnings ↔ r = root ∧ p.lintConfig = none

/-- The warnings of one kind of configurations, given whether one was found. -/
def complaints (fs : FileSystem) (root : Path) (kind : ConfigKind) (named : Option Path)
    (found : Bool) : List ProjectWarning :=
  (tryOverride fs root kind named).2 ++ if found then [] else [kind.notFound root]

section
variable {kind : ConfigKind} {named : Option Path} {found : Bool}

theorem mem_complaints_iff {w : ProjectWarning} :
    w ∈ complaints fs root kind named found ↔
      (∃ q, named = some q ∧ fs.isFile (root.under q) = false ∧
        w = .overrideNotFound kind (root.under q)) ∨
      found = false ∧ w = kind.notFound root := by
  rw [complaints, List.mem_append, mem_tryOverride_iff]
  cases found <;> simp

theorem complaints_pairwise :
    (complaints fs root kind named found).Pairwise fun v w => v.rank < w.rank := by
  have hhead : (tryOverride fs root kind named).2.Pairwise fun v w => v.rank < w.rank := by
    cases named with
    | none => exact .nil
    | some q =>
      simp only [tryOverride]
      split
      · exact .nil
      · exact List.pairwise_singleton _ _
  refine List.pairwise_append.2 ⟨hhead, ?_, ?_⟩
  · split
    · exact .nil
    · exact List.pairwise_singleton _ _
  · intro v hv w hw
    obtain ⟨q, -, -, rfl⟩ := mem_tryOverride_iff.1 hv
    split at hw
    · cases hw
    · obtain rfl := List.mem_singleton.1 hw
      rw [kind.rank_notFound]
      exact Nat.lt_succ_self _

end

theorem mem_resolveManifest_iff {w : ProjectWarning} :
    w ∈ (resolveManifest fs root).2 ↔
      ∃ cause, Manifest.Unusable fs root cause ∧
        w = .manifestUnreadable (Manifest.path root) cause := by
  simp only [← Manifest.read_eq_error_iff, resolveManifest]
  cases Manifest.read fs root <;> simp

section
variable {o : Overrides}

theorem warnings_resolve :
    (resolve fs root o).warnings =
      (resolveManifest fs root).2 ++
        complaints fs root .typeCheck o.typeCheck (resolve fs root o).typeCheckConfig.isSome ++
        complaints fs root .lint o.lint (resolve fs root o).lintConfig.isSome := by
  have hcomplaints : ∀ (ws : List ProjectWarning) (found : Bool) (w : ProjectWarning),
      (if found then ws else ws ++ [w]) = ws ++ if found then [] else [w] := by
    intro ws found w
    cases found <;> simp
  simp only [resolve, resolveTypeCheck, resolveLint, complaints, hcomplaints, ConfigKind.notFound]

/-- The warnings of a project, whatever their order. -/
theorem mem_warnings_resolve_iff {w : ProjectWarning} :
    w ∈ (resolve fs root o).warnings ↔
      (∃ cause, Manifest.Unusable fs root cause ∧
        w = .manifestUnreadable (Manifest.path root) cause) ∨
      (∃ kind q, o.of kind = some q ∧ fs.isFile (root.under q) = false ∧
        w = .overrideNotFound kind (root.under q)) ∨
      ((resolve fs root o).typeCheckConfig = none ∧ w = .typeCheckConfigNotFound root) ∨
      ((resolve fs root o).lintConfig = none ∧ w = .lintConfigNotFound root) := by
  rw [warnings_resolve, List.mem_append, List.mem_append, mem_resolveManifest_iff,
    mem_complaints_iff, mem_complaints_iff, Option.isSome_eq_false_iff, Option.isNone_iff_eq_none,
    Option.isSome_eq_false_iff, Option.isNone_iff_eq_none]
  constructor
  · rintro ((hmanifest | ⟨q, hq⟩ | hfound) | ⟨q, hq⟩ | hfound)
    · exact .inl hmanifest
    · exact .inr (.inl ⟨.typeCheck, q, hq⟩)
    · exact .inr (.inr (.inl hfound))
    · exact .inr (.inl ⟨.lint, q, hq⟩)
    · exact .inr (.inr (.inr hfound))
  · rintro (hmanifest | ⟨kind, q, hq⟩ | hfound | hfound)
    · exact .inl (.inl hmanifest)
    · cases kind with
      | typeCheck => exact .inl (.inr (.inl ⟨q, hq⟩))
      | lint => exact .inr (.inl ⟨q, hq⟩)
    · exact .inl (.inr (.inr hfound))
    · exact .inr (.inr hfound)

theorem rank_of_mem_complaints {kind : ConfigKind} {named : Option Path} {found : Bool}
    {w : ProjectWarning} (h : w ∈ complaints fs root kind named found) :
    kind.rank ≤ w.rank ∧ w.rank ≤ kind.rank + 1 := by
  rcases mem_complaints_iff.1 h with ⟨q, -, -, rfl⟩ | ⟨-, rfl⟩
  · exact ⟨Nat.le_refl _, Nat.le_succ _⟩
  · rw [kind.rank_notFound]
    exact ⟨Nat.le_succ _, Nat.le_refl _⟩

theorem warnings_pairwise :
    (resolve fs root o).warnings.Pairwise fun v w => v.rank < w.rank := by
  have hmanifest : (resolveManifest fs root).2.Pairwise fun v w => v.rank < w.rank := by
    unfold resolveManifest
    split
    · exact .nil
    · exact List.pairwise_singleton _ _
  have htype : ConfigKind.typeCheck.rank = 1 := rfl
  have hlint : ConfigKind.lint.rank = 3 := rfl
  rw [warnings_resolve, List.append_assoc]
  refine List.pairwise_append.2 ⟨hmanifest, ?_, ?_⟩
  · refine List.pairwise_append.2 ⟨complaints_pairwise, complaints_pairwise, ?_⟩
    intro v hv w hw
    have hv := rank_of_mem_complaints hv
    have hw := rank_of_mem_complaints hw
    omega
  · intro v hv w hw
    obtain ⟨cause, -, rfl⟩ := mem_resolveManifest_iff.1 hv
    show 0 < w.rank
    rcases List.mem_append.1 hw with hw | hw
    · have hw := rank_of_mem_complaints hw
      omega
    · have hw := rank_of_mem_complaints hw
      omega

theorem warned_resolve : Warned fs root o (resolve fs root o) where
  order := warnings_pairwise
  manifest := by
    intro path cause
    rw [mem_warnings_resolve_iff]
    simp only [ProjectWarning.manifestUnreadable.injEq, reduceCtorEq, and_false, exists_false,
      or_false]
    constructor
    · rintro ⟨_, hcause, rfl, rfl⟩
      exact ⟨rfl, hcause⟩
    · rintro ⟨rfl, hcause⟩
      exact ⟨cause, hcause, rfl, rfl⟩
  named := by
    intro kind path
    rw [mem_warnings_resolve_iff]
    simp only [ProjectWarning.overrideNotFound.injEq, reduceCtorEq, and_false, exists_false,
      or_false, false_or]
    constructor
    · rintro ⟨_, q, hq, hfile, rfl, rfl⟩
      exact ⟨q, hq, rfl, hfile⟩
    · rintro ⟨q, hq, rfl, hfile⟩
      exact ⟨kind, q, hq, hfile, rfl, rfl⟩
  typeCheck := by
    intro r
    rw [mem_warnings_resolve_iff]
    simp [and_comm]
  lint := by
    intro r
    rw [mem_warnings_resolve_iff]
    simp [and_comm]

/-! ## What cannot be used -/

/-- Of what the user names, what is a file. -/
def usable (fs : FileSystem) (root : Path) (o : Overrides) : Overrides where
  typeCheck := o.typeCheck.filter fun q => fs.isFile (root.under q)
  lint := o.lint.filter fun q => fs.isFile (root.under q)

theorem namesFile_filter {named : Option Path} {p : Path} :
    NamesFile fs root (named.filter fun q => fs.isFile (root.under q)) p ↔
      NamesFile fs root named p := by
  constructor
  · rintro ⟨q, hq, hp⟩
    exact ⟨q, (Option.filter_eq_some_iff.1 hq).1, hp⟩
  · rintro ⟨q, hq, rfl, hfile⟩
    exact ⟨q, Option.filter_eq_some_iff.2 ⟨hq, hfile⟩, rfl, hfile⟩

theorem tryOverride_filter (kind : ConfigKind) (named : Option Path) :
    (tryOverride fs root kind (named.filter fun q => fs.isFile (root.under q))).1 =
      (tryOverride fs root kind named).1 := by
  apply Option.ext
  intro p
  rw [tryOverride_eq_some_iff, tryOverride_eq_some_iff, namesFile_filter]

/-- Without what the user names in vain the same is found. -/
theorem resolve_usable :
    (resolve fs root o).typeCheckConfig = (resolve fs root (usable fs root o)).typeCheckConfig ∧
      (resolve fs root o).lintConfig = (resolve fs root (usable fs root o)).lintConfig ∧
      (resolve fs root o).framework = (resolve fs root (usable fs root o)).framework := by
  have htype : (resolve fs root o).typeCheckConfig =
      (resolve fs root (usable fs root o)).typeCheckConfig := by
    rw [typeCheckConfig_resolve, typeCheckConfig_resolve, usable, tryOverride_filter]
  refine ⟨htype, ?_, ?_⟩
  · rw [lintConfig_resolve, lintConfig_resolve, usable, tryOverride_filter]
  · rw [framework_resolve, framework_resolve, htype]

/-- Without a manifest that cannot be used the same is found, and only the warning of it is
missing. -/
theorem resolve_of_unusable {cause : ManifestError} (hcause : Manifest.Unusable fs root cause)
    (hgone : fs'.isFile (Manifest.path root) = false)
    (hsearched : ∀ n ∈ searched, fs'.isFile (root.child n) = fs.isFile (root.child n))
    (hnamed : ∀ p ∈ o.named, fs'.isFile (root.under p) = fs.isFile (root.under p)) :
    resolve fs root o =
      { resolve fs' root o with
        warnings := .manifestUnreadable (Manifest.path root) cause ::
          (resolve fs' root o).warnings } := by
  have hmanifest : resolveManifest fs root =
      (none, [.manifestUnreadable (Manifest.path root) cause]) := by
    rw [resolveManifest, Manifest.read_eq_error_iff.2 hcause]
  have hmanifest' : resolveManifest fs' root = (none, []) := by
    rw [resolveManifest, Manifest.read_of_not_isFile hgone]
  have htype := resolveTypeCheck_congr hsearched fun p hp => hnamed p (List.mem_append_left _ hp)
  have hlint := resolveLint_congr hsearched none fun p hp => hnamed p (List.mem_append_right _ hp)
  simp only [resolve, hmanifest, hmanifest', htype, hlint, detect_congr hsearched]
  rfl

end

/-! ## Resolutions -/

/-- The configurations are selected in the order of preference: a file that the user names, then the
names of the tables, then the manifest.  What is selected is a file.  The warnings say in order what
cannot be used and what was not found, and nothing else.  What the user names in vain does not
change what is found, nor does a manifest that cannot be used. -/
theorem selects_and_warns (fs : FileSystem) (root : Path) (o : Overrides) :
    ((∀ r, (resolve fs root o).typeCheckConfig = r ↔ TypeCheckChoice fs root o.typeCheck r) ∧
      ∀ p, (resolve fs root o).typeCheckConfig = some p → fs.isFile p = true) ∧
    ((∀ r, (resolve fs root o).lintConfig = r ↔ LintChoice fs root o.lint r) ∧
      ∀ c, (resolve fs root o).lintConfig = some c → fs.isFile c.path = true ∧
        (c.format = .packageManifest →
          NamesFile fs root o.lint c.path ∨ Manifest.Embeds fs root)) ∧
    Warned fs root o (resolve fs root o) ∧
    ((resolve fs root o).typeCheckConfig = (resolve fs root (usable fs root o)).typeCheckConfig ∧
      (resolve fs root o).lintConfig = (resolve fs root (usable fs root o)).lintConfig ∧
      (resolve fs root o).framework = (resolve fs root (usable fs root o)).framework) ∧
    ∀ fs' cause, Manifest.Unusable fs root cause → fs'.isFile (Manifest.path root) = false →
      (∀ n ∈ searched, fs'.isFile (root.child n) = fs.isFile (root.child n)) →
      (∀ p ∈ o.named, fs'.isFile (root.under p) = fs.isFile (root.under p)) →
      resolve fs root o =
        { resolve fs' root o with
          warnings := .manifestUnreadable (Manifest.path root) cause ::
            (resolve fs' root o).warnings } := by
  refine ⟨⟨fun r => typeCheckConfig_eq_iff, ?_⟩, ⟨fun r => lintConfig_eq_iff, ?_⟩, warned_resolve,
    resolve_usable, ?_⟩
  · intro p hp
    exact (typeCheckConfig_eq_iff.1 hp).isFile
  · intro c hc
    exact (lintConfig_eq_iff.1 hc).isFile
  · intro fs' cause hcause hgone hsearched hnamed
    exact resolve_of_unusable hcause hgone hsearched hnamed

/-- A workspace without a manifest.  A directory has the first flat name, and two files have legacy
names. -/
def unmanifested : List (Path × Entry) :=
  [(⟨"/ws/eslint.config.js"⟩, .directory), (⟨"/ws/.eslintrc"⟩, .file (.ok []) false),
    (⟨"/ws/.eslintrc.cjs"⟩, .file (.ok []) false),
    (⟨"/ws/config/strict.json"⟩, .file (.ok []) false)]

/-- The same workspace with a manifest. -/
def manifested (content : Except AccessError (List UInt8)) : List (Path × Entry) :=
  (⟨"/ws/package.json"⟩, .file content false) :: unmanifested

theorem isFile_manifested (content : Except AccessError (List UInt8)) {p : Path}
    (h : p ≠ ⟨"/ws/package.json"⟩) :
    (FileSystem.holding unmanifested).isFile p =
      (FileSystem.holding (manifested content)).isFile p :=
  FileSystem.isFile_congr (FileSystem.entry_holding_cons h).symm

theorem isFile_searched_manifested (content : Except AccessError (List UInt8)) :
    ∀ n ∈ searched, (FileSystem.holding unmanifested).isFile (Path.child ⟨"/ws"⟩ n) =
      (FileSystem.holding (manifested content)).isFile (Path.child ⟨"/ws"⟩ n) := by
  have hne : ∀ n ∈ searched, Path.child ⟨"/ws"⟩ n ≠ ⟨"/ws/package.json"⟩ := by decide +kernel
  exact fun n hn => isFile_manifested content (hne n hn)

theorem isFile_named_manifested (content : Except AccessError (List UInt8)) :
    ∀ p ∈ Overrides.named ⟨some ⟨"config/strict.json"⟩, some ⟨"gone.js"⟩⟩,
      (FileSystem.holding unmanifested).isFile (Path.under ⟨"/ws"⟩ p) =
        (FileSystem.holding (manifested content)).isFile (Path.under ⟨"/ws"⟩ p) := by
  have hne : ∀ p ∈ Overrides.named ⟨some ⟨"config/strict.json"⟩, some ⟨"gone.js"⟩⟩,
      Path.under ⟨"/ws"⟩ p ≠ ⟨"/ws/package.json"⟩ := by decide
  exact fun p hp => isFile_manifested content (hne p hp)

/-- The linter's configuration that the user names is gone, and a directory has the first flat name.
The file the user names for the type checker and the first legacy file are selected.  A manifest
that ends behind its first brace adds a warning and changes nothing else, and so does one that may
not be opened. -/
theorem selects_and_warns_beside_broken_manifest :
    let o : Overrides := ⟨some ⟨"config/strict.json"⟩, some ⟨"gone.js"⟩⟩
    let fs' : FileSystem := .holding unmanifested
    fs'.isDirectory ⟨"/ws/eslint.config.js"⟩ = true ∧
      fs'.isFile (Manifest.path ⟨"/ws"⟩) = false ∧
      (resolve fs' ⟨"/ws"⟩ o).typeCheckConfig = some ⟨"/ws/config/strict.json"⟩ ∧
      (resolve fs' ⟨"/ws"⟩ o).lintConfig = some ⟨.legacy, ⟨"/ws/.eslintrc.cjs"⟩⟩ ∧
      (resolve fs' ⟨"/ws"⟩ o).warnings = [.overrideNotFound .lint ⟨"/ws/gone.js"⟩] ∧
      ∀ e ∈ [(.ok [0x7b], .parse .truncated), (.error .denied, .read (.access .denied))],
        Manifest.Unusable (.holding (manifested e.1)) ⟨"/ws"⟩ e.2 ∧
          (∀ n ∈ searched, fs'.isFile (Path.child ⟨"/ws"⟩ n) =
            (FileSystem.holding (manifested e.1)).isFile (Path.child ⟨"/ws"⟩ n)) ∧
          (∀ p ∈ o.named, fs'.isFile (Path.under ⟨"/ws"⟩ p) =
            (FileSystem.holding (manifested e.1)).isFile (Path.under ⟨"/ws"⟩ p)) ∧
          resolve (.holding (manifested e.1)) ⟨"/ws"⟩ o =
            { resolve fs' ⟨"/ws"⟩ o with
              warnings := .manifestUnreadable (Manifest.path ⟨"/ws"⟩) e.2 ::
                (resolve fs' ⟨"/ws"⟩ o).warnings } := by
  intro o fs'
  have hgone : fs'.isFile (Manifest.path ⟨"/ws"⟩) = false := by decide
  obtain ⟨⟨htype, -⟩, ⟨hlint, -⟩, -⟩ := selects_and_warns fs' ⟨"/ws"⟩ o
  refine ⟨by decide, hgone, ?_, ?_, by decide +kernel, ?_⟩
  · exact (htype _).2 (.named ⟨⟨"config/strict.json"⟩, rfl, by decide, by decide⟩)
  · refine (hlint _).2 (.legacy ?_ (by unfold FileSystem.HasNone; decide +kernel) ?_)
    · rintro _ ⟨_, ⟨⟩, rfl, hfile⟩
      revert hfile
      decide
    · exact ⟨[".eslintrc.js"], ".eslintrc.cjs", _, rfl, by decide, by decide, by decide⟩
  · have hwithout {content : Except AccessError (List UInt8)} {cause : ManifestError}
        (hcause : Manifest.Unusable (.holding (manifested content)) ⟨"/ws"⟩ cause) :=
      (selects_and_warns (.holding (manifested content)) ⟨"/ws"⟩ o).2.2.2.2 fs' cause hcause hgone
        (isFile_searched_manifested content) (isFile_named_manifested content)
    have hmalformed : Manifest.Unusable (.holding (manifested (.ok [0x7b]))) ⟨"/ws"⟩
        (.parse .truncated) := .malformed (by decide) rfl rfl
    have hdenied : Manifest.Unusable (.holding (manifested (.error .denied))) ⟨"/ws"⟩
        (.read (.access .denied)) := .unreadable (by decide) rfl
    rw [List.forall_mem_cons, List.forall_mem_singleton]
    exact ⟨⟨hmalformed, isFile_searched_manifested _, isFile_named_manifested _,
        hwithout hmalformed⟩,
      hdenied, isFile_searched_manifested _, isFile_named_manifested _, hwithout hdenied⟩

end Project

end ProblemBoard
