import ProblemBoard.Collect.Basic
import ProblemBoard.Producer.Lint
import ProblemBoard.Project.Resolution
import ProblemBoard.Proofs.Path.Entry

/-!
# The form of the lint configuration

A resolution finds out where the lint configuration is and of which form.  The lint producer is
told the path only, and reads the form off the file name again.  `lint_format_agrees` says that it
comes to the same form, and that it calls the linter as this form asks for; and that by itself it
finds what a resolution finds without a word of the user.
-/

namespace ProblemBoard

/-! ## Forms from names -/

namespace LintConfig

variable {fs : FileSystem} {root : Path} {manifest : Option Manifest} {c : LintConfig}

theorem ofPath_child {name : String} (h : Path.IsName name) :
    ofPath (root.child name) = ⟨formatOf name, root.child name⟩ := by
  rw [ofPath, root.fileName_child h, Option.getD_some]

theorem formatOf_flatNames : ∀ n ∈ flatNames, Path.IsName n ∧ formatOf n = .flat := by decide

theorem formatOf_legacyNames : ∀ n ∈ legacyNames, Path.IsName n ∧ formatOf n = .legacy := by
  decide

theorem formatOf_manifest : Path.IsName Manifest.fileName ∧
    formatOf Manifest.fileName = .packageManifest := by decide

/-- A file that is found by its name has the form of that name. -/
theorem ofPath_of_firstFile {names : List String} {format : LintFormat} {p : Path}
    (hnames : ∀ n ∈ names, Path.IsName n ∧ formatOf n = format)
    (h : fs.firstFile root names = some p) : ofPath p = ⟨format, p⟩ := by
  obtain ⟨n, hn, rfl⟩ := List.mem_map.1 (List.mem_of_find?_eq_some h)
  obtain ⟨hname, hformat⟩ := hnames n hn
  rw [ofPath_child hname, hformat]

theorem ofPath_of_discover (h : discover fs root manifest = some c) : ofPath c.path = c := by
  unfold discover at h
  split at h
  · next hflat =>
    obtain rfl := Option.some.inj h
    exact ofPath_of_firstFile formatOf_flatNames hflat
  · split at h
    · next hlegacy =>
      obtain rfl := Option.some.inj h
      exact ofPath_of_firstFile formatOf_legacyNames hlegacy
    · split at h
      · obtain rfl := Option.some.inj h
        rw [Manifest.path, ofPath_child formatOf_manifest.1, formatOf_manifest.2]
      · cases h

end LintConfig

namespace Project

variable {fs : FileSystem} {root : Path} {o : Overrides}

theorem ofPath_of_resolve {c : LintConfig} (h : (resolve fs root o).lintConfig = some c) :
    LintConfig.ofPath c.path = c := by
  rw [lintConfig_resolve] at h
  cases htry : (tryOverride fs root .lint o.lint).1 with
  | some p =>
    rw [htry] at h
    obtain rfl := Option.some.inj h
    rfl
  | none =>
    rw [htry] at h
    exact LintConfig.ofPath_of_discover h

theorem lintConfig_of_unusable (h : ∀ p, o.lint = some p → fs.isFile (root.under p) = false) :
    (resolve fs root o).lintConfig = LintConfig.discover fs root (resolveManifest fs root).1 := by
  have htry : (tryOverride fs root .lint o.lint).1 = none := by
    cases hnamed : o.lint with
    | none => rfl
    | some p => simp [tryOverride, h p hnamed]
  rw [lintConfig_resolve, htry]
  rfl

end Project

/-! ## Calls of the linter -/

namespace Lint

/-- The value of an option among arguments that are options with their values. -/
def valueOf (option : String) : List String → Option String
  | o :: value :: rest => if o = option then some value else valueOf option rest
  | _ => none

/-- A call that suits a configuration which is known by its path.  What is not of the flat form
needs the older mode and the endings of files, and what is no manifest is named. -/
structure Suits (call : EngineCall) (c : LintConfig) : Prop where
  mode : call.environment.lookup "ESLINT_USE_FLAT_CONFIG" =
    if c.format = .flat then none else some "false"
  extensions : valueOf "--ext" call.args =
    if c.format = .flat then none else some legacyExtensions
  config : valueOf "--config" call.args =
    if c.format = .packageManifest then none else some c.path.text

theorem suits_args (program dir : Path) (c : LintConfig) :
    Suits ⟨program, args c true, dir, environment c⟩ c := by
  obtain ⟨format, path⟩ := c
  cases format <;> exact ⟨rfl, rfl, rfl⟩

variable {fs : FileSystem} {r : Request}

theorem config_of_some {p : Path} (h : r.config = some p) :
    config fs r = (some (LintConfig.ofPath p), true) := by
  rw [config, h]

theorem config_of_none (h : r.config = none) :
    config fs r =
      (LintConfig.discover fs r.root (Project.resolveManifest fs r.root).1, false) := by
  rw [config, h, Project.resolveManifest]
  cases Manifest.read fs r.root <;> rfl

/-- The linter is called once, and the call is recorded if it starts. -/
theorem call_run {c : LintConfig} {named : Bool} {locate : String → Option Path} {program : Path}
    (hc : config fs r = (some c, named)) (hprogram : locate engine = some program)
    (launch : Launcher) :
    (run fs locate launch r).call =
      if (launch ⟨program, args c named, r.root, environment c⟩).isOk then
        some ⟨program, args c named, r.root, environment c⟩
      else none := by
  rw [run, hc]
  dsimp only
  rw [Engine.run, hprogram]
  dsimp only
  cases launch ⟨program, args c named, r.root, environment c⟩ <;> rfl

end Lint

/-- What is asked of the lint producer for a project. -/
theorem Collect.eq_of_lint_mem_plan {p : Project} {f : Filters} {r : Request}
    (h : (.lint, r) ∈ Collect.plan p f) :
    r = ⟨p.root, p.lintConfig.map LintConfig.path, false⟩ := by
  unfold plan at h
  cases hmode : f.scanMode with
  | openFiles =>
    rw [hmode] at h
    simp at h
  | workspace =>
    rw [hmode] at h
    rcases List.mem_append.1 h with h | h
    · split at h <;> simp at h
    · split at h
      · simpa using h
      · cases h

/-- The form of a resolved lint configuration is that of its file name.  So the lint producer,
which is asked about the path, calls the linter as the form asks for, whatever has become of the
files since.  Without a path it finds by itself what a resolution finds when no file that the user
names is there, be the manifest readable or not. -/
theorem lint_format_agrees (fs : FileSystem) (root : Path) (o : Overrides) :
    (∀ c, (Project.resolve fs root o).lintConfig = some c →
      LintConfig.ofPath c.path = c ∧
        ∀ f r, (.lint, r) ∈ Collect.plan (Project.resolve fs root o) f →
          ∀ later locate program, locate Lint.engine = some program →
            ∃ call : EngineCall, call.program = program ∧ call.directory = root ∧
              Lint.Suits call c ∧
              ∀ launch : Launcher, (Lint.run later locate launch r).call =
                if (launch call).isOk then some call else none) ∧
      ((∀ p, o.lint = some p → fs.isFile (root.under p) = false) →
        ∀ r : Request, r.root = root → r.config = none →
          Lint.config fs r = ((Project.resolve fs root o).lintConfig, false)) := by
  constructor
  · intro c hc
    have hclass := Project.ofPath_of_resolve hc
    refine ⟨hclass, fun f r hr later locate program hprogram => ?_⟩
    obtain rfl := Collect.eq_of_lint_mem_plan hr
    rw [hc, Option.map_some]
    have hconfig : Lint.config later ⟨root, some c.path, false⟩ = (some c, true) := by
      rw [Lint.config_of_some rfl, hclass]
    exact ⟨_, rfl, rfl, Lint.suits_args program root c, Lint.call_run hconfig hprogram⟩
  · intro hunusable r hroot hnone
    subst hroot
    rw [Lint.config_of_none hnone, Project.lintConfig_of_unusable hunusable]

/-- A workspace with an older configuration, and with a manifest that is no text. -/
def olderConfig : FileSystem :=
  .holding [(⟨"/ws/.eslintrc.json"⟩, .file (.ok []) false),
    (⟨"/ws/package.json"⟩, .file (.ok [0xff]) false)]

/-- The user names a file that is not there, and the manifest is no text.  The older configuration
in the workspace root is found, and the linter is called in its older mode, though the
configuration is gone by then. -/
theorem lint_format_agrees_without_manifest :
    ∃ (fs : FileSystem) (c : LintConfig) (r : Request) (call : EngineCall),
      Manifest.read fs ⟨"/ws"⟩ = .error (.read .notText) ∧
      fs.isFile (Path.under ⟨"/ws"⟩ ⟨"gone.js"⟩) = false ∧
      (Project.resolve fs ⟨"/ws"⟩ ⟨none, some ⟨"gone.js"⟩⟩).lintConfig = some c ∧
      c = ⟨.legacy, ⟨"/ws/.eslintrc.json"⟩⟩ ∧
      (.lint, r) ∈ Collect.plan (Project.resolve fs ⟨"/ws"⟩ ⟨none, some ⟨"gone.js"⟩⟩)
        (.ofSettings .default) ∧
      (Lint.run ⟨fun _ => .error .missing⟩ (fun _ => some ⟨"/bin/eslint"⟩)
        (fun _ => .ok ⟨.exited 0, "[]", ""⟩) r).call = some call ∧
      Lint.Suits call c ∧
      Lint.config fs (.bare ⟨"/ws"⟩) = (some c, false) := by
  have hmanifest : Manifest.read olderConfig ⟨"/ws"⟩ = .error (.read .notText) := rfl
  have hgone : olderConfig.isFile (Path.under ⟨"/ws"⟩ ⟨"gone.js"⟩) = false := by decide
  have hconfig : (Project.resolve olderConfig ⟨"/ws"⟩ ⟨none, some ⟨"gone.js"⟩⟩).lintConfig =
      some ⟨.legacy, ⟨"/ws/.eslintrc.json"⟩⟩ := by decide +kernel
  have hplan : (.lint, ⟨⟨"/ws"⟩, some ⟨"/ws/.eslintrc.json"⟩, false⟩) ∈
      Collect.plan (Project.resolve olderConfig ⟨"/ws"⟩ ⟨none, some ⟨"gone.js"⟩⟩)
        (.ofSettings .default) := by decide +kernel
  obtain ⟨hnamed, hfound⟩ := lint_format_agrees olderConfig ⟨"/ws"⟩ ⟨none, some ⟨"gone.js"⟩⟩
  obtain ⟨-, hcall⟩ := hnamed _ hconfig
  obtain ⟨call, -, -, hsuits, hlaunch⟩ :=
    hcall _ _ hplan ⟨fun _ => .error .missing⟩ (fun _ => some ⟨"/bin/eslint"⟩) _ rfl
  refine ⟨olderConfig, _, _, call, hmanifest, hgone, hconfig, rfl, hplan, hlaunch _, hsuits, ?_⟩
  rw [← hconfig]
  refine hfound ?_ (.bare ⟨"/ws"⟩) rfl rfl
  rintro _ ⟨⟩
  exact hgone

end ProblemBoard
