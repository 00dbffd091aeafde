import ProblemBoard.Project.Basic
import ProblemBoard.Settings.Basic

/-!
# Resolving projects

A configuration file that the user names wins when it is a file.  Otherwise the
conventional names are tried in the workspace root, in their order.  Nothing missing is an
error: it leaves a warning, in the order manifest, type checker, linter.

`Project.isAffectedBy` tells from the name of a file whether a change of that file may
change what is resolved.
-/

namespace ProblemBoard

def Overrides.ofSettings (s : Settings) : Overrides :=
  ⟨s.producers.typeCheckConfig, s.producers.lintConfig⟩

namespace Project

/-- The conventional names of type-check configurations, the first ones first. -/
def typeCheckNames : List String :=
  ["tsconfig.json", "tsconfig.app.json", "tsconfig.build.json", "jsconfig.json"]

/-- What a user's word leads to: the file when it is one, else a warning. -/
def tryOverride (fs : FileSystem) (root : Path) (kind : ConfigKind) (named : Option Path) :
    Option Path × List ProjectWarning :=
  match named with
  | none => (none, [])
  | some p =>
      let full := root.under p
      if fs.isFile full then (some full, []) else (none, [.overrideNotFound kind full])

/-- The type-check configuration of a workspace, and the warnings on the way. -/
def resolveTypeCheck (fs : FileSystem) (root : Path) (named : Option Path) :
    Option Path × List ProjectWarning :=
  let (chosen, warnings) := tryOverride fs root .typeCheck named
  let found := chosen <|> fs.firstFile root typeCheckNames
  (found, if found.isSome then warnings else warnings ++ [.typeCheckConfigNotFound root])

/-- The lint configuration of a workspace, and the warnings on the way. -/
def resolveLint (fs : FileSystem) (root : Path) (manifest : Option Manifest)
    (named : Option Path) : Option LintConfig × List ProjectWarning :=
  let (chosen, warnings) := tryOverride fs root .lint named
  let found := chosen.map LintConfig.ofPath <|> LintConfig.discover fs root manifest
  (found, if found.isSome then warnings else warnings ++ [.lintConfigNotFound root])

/-- The manifest of a workspace as far as it can be used, and the warning when it cannot. -/
def resolveManifest (fs : FileSystem) (root : Path) : Option Manifest × List ProjectWarning :=
  match Manifest.read fs root with
  | .ok m => (m, [])
  | .error cause => (none, [.manifestUnreadable (Manifest.path root) cause])

def resolve (fs : FileSystem) (root : Path) (overrides : Overrides) : Project :=
  let (manifest, manifestWarnings) := resolveManifest fs root
  let (typeCheck, typeCheckWarnings) := resolveTypeCheck fs root overrides.typeCheck
  let (lint, lintWarnings) := resolveLint fs root manifest overrides.lint
  { root
    typeCheckConfig := typeCheck
    lintConfig := lint
    framework := Framework.detect fs root manifest typeCheck.isSome
    warnings := manifestWarnings ++ typeCheckWarnings ++ lintWarnings }

section
variable {fs : FileSystem} {root : Path} {o : Overrides}

/-- The type-check configuration is a file that the user names, or the first one of a conventional
name. -/
theorem typeCheckConfig_resolve :
    (resolve fs root o).typeCheckConfig =
      ((tryOverride fs root .typeCheck o.typeCheck).1 <|> fs.firstFile root typeCheckNames) := rfl

/-- The lint configuration is a file that the user names, or one that is discovered. -/
theorem lintConfig_resolve :
    (resolve fs root o).lintConfig =
      ((tryOverride fs root .lint o.lint).1.map LintConfig.ofPath <|>
        LintConfig.discover fs root (resolveManifest fs root).1) := rfl

theorem framework_resolve :
    (resolve fs root o).framework =
      Framework.detect fs root (resolveManifest fs root).1
        (resolve fs root o).typeCheckConfig.isSome := rfl

end

/-- Whether a file of the given name has a say in what is resolved. -/
def isConfigName (name : String) : Bool :=
  name = Manifest.fileName || typeCheckNames.contains name ||
    LintConfig.flatNames.contains name || LintConfig.legacyNames.contains name ||
    Framework.isMarker name

/-- Whether a change of a file may change what is resolved. -/
def isAffectedBy (p : Path) : Bool := p.fileName.any isConfigName

end Project

end ProblemBoard
