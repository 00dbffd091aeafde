import ProblemBoard.FileSystem.Basic
import ProblemBoard.Project.Manifest

/-!
# Lint configurations

A lint configuration is a flat file, a legacy file, or part of the package manifest.  Which
of them it is decides how the linter is called, and follows from the name of the file.
Without a word from the user the first flat file in the workspace root is taken, else the
first legacy file, else the manifest when a configuration is embedded in it.
-/

namespace ProblemBoard

/-- The form of a lint configuration. -/
inductive LintFormat where
  /-- A file of the flat form. -/
  | flat
  /-- A file of the older form. -/
  | legacy
  /-- A member of the package manifest, of the older form. -/
  | packageManifest
  deriving DecidableEq, Repr

def LintFormat.name : LintFormat → String
  | .flat => "flat"
  | .legacy => "legacy"
  | .packageManifest => "package-manifest"

/-- Where a lint configuration stands. -/
structure LintConfig where
  format : LintFormat
  path : Path
  deriving DecidableEq, Repr

namespace LintConfig

/-- The names of flat files, the first ones first. -/
def flatNames : List String :=
  ["eslint.config.js", "eslint.config.mjs", "eslint.config.cjs", "eslint.config.ts",
   "eslint.config.mts", "eslint.config.cts"]

/-- The names of legacy files, the first ones first. -/
def legacyNames : List String :=
  [".eslintrc.js", ".eslintrc.cjs", ".eslintrc.yaml", ".eslintrc.yml", ".eslintrc.json",
   ".eslintrc"]

/-- The form of a configuration in a file of the given name. -/
def formatOf (name : String) : LintFormat :=
  if name = Manifest.fileName then .packageManifest
  else if "eslint.config.".toList.isPrefixOf name.toList then .flat
  else .legacy

/-- The configuration in a file, its form read off the file name. -/
def ofPath (p : Path) : LintConfig := ⟨formatOf (p.fileName.getD ""), p⟩

def isFlat (c : LintConfig) : Bool := c.format = .flat

end LintConfig

/-- The first of the named entries of a directory that is a file. -/
def FileSystem.firstFile (fs : FileSystem) (dir : Path) (names : List String) : Option Path :=
  (names.map dir.child).find? fs.isFile

/-- The lint configuration that a workspace has by itself. -/
def LintConfig.discover (fs : FileSystem) (root : Path) (manifest : Option Manifest) :
    Option LintConfig :=
  match fs.firstFile root flatNames with
  | some p => some ⟨.flat, p⟩
  | none =>
      match fs.firstFile root legacyNames with
      | some p => some ⟨.legacy, p⟩
      | none =>
          if manifest.any (·.embedsLintConfig) then
            some ⟨.packageManifest, Manifest.path root⟩
          else none

end ProblemBoard
