import ProblemBoard.FileSystem.Basic
import ProblemBoard.Json.Reader

/-!
# Package manifests

Of the `package.json` of a workspace two things matter: the names of the packages in its
dependency tables, and whether a lint configuration is embedded in it.  The tables are read
in full all the same, so a manifest with a fault in them is refused.
-/

namespace ProblemBoard

/-- What matters of a package manifest. -/
structure Manifest where
  /-- The packages the program needs. -/
  dependencies : List String
  /-- The packages its developers need. -/
  devDependencies : List String
  /-- The packages its users need. -/
  peerDependencies : List String
  /-- The lint configuration embedded in it. -/
  lintConfig : Option Json.Value

/-- Why a manifest is not read. -/
inductive ManifestError where
  | read (e : ReadError)
  | parse (fault : Json.Fault)
  deriving DecidableEq, Repr

namespace Manifest

def fileName : String := "package.json"

/-- The manifest without any field. -/
def bare : Manifest := ⟨[], [], [], none⟩

/-- A dependency table, of which the names are kept.  Its values stand two levels deep. -/
def dependencyNames : Json.Reader (List String) := do
  let members ← Json.Reader.object (Json.Reader.valueWithin (Json.Reader.maxDepth - 2))
  return members.map (·.1)

def fields : List (Json.Reader.Field Manifest) :=
  [⟨"dependencies", false, fun m => return { m with dependencies := ← dependencyNames }⟩,
   ⟨"devDependencies", false, fun m => return { m with devDependencies := ← dependencyNames }⟩,
   ⟨"peerDependencies", false, fun m => return { m with peerDependencies := ← dependencyNames }⟩,
   ⟨"eslintConfig", false, fun m => return { m with
      lintConfig := ← Json.Reader.option (Json.Reader.valueWithin (Json.Reader.maxDepth - 1)) }⟩]

/-- The manifest that a text holds. -/
def ofText (text : String) : Except Json.Fault Manifest :=
  Json.Reader.run (Json.Reader.record fields bare) text

/-- Whether some dependency table names a package. -/
def dependsOn (m : Manifest) (package : String) : Bool :=
  m.dependencies.contains package || m.devDependencies.contains package ||
    m.peerDependencies.contains package

/-- Whether a lint configuration other than `null` is embedded. -/
def embedsLintConfig (m : Manifest) : Bool :=
  match m.lintConfig with
  | some v => !v.isNull
  | none => false

/-- Where the manifest of a workspace stands. -/
def path (root : Path) : Path := root.child fileName

/-- The manifest of a workspace, `none` when it has none. -/
def read (fs : FileSystem) (root : Path) : Except ManifestError (Option Manifest) :=
  if fs.isFile (path root) then
    match fs.readText (path root) with
    | .error e => .error (.read e)
    | .ok text =>
        match ofText text with
        | .error fault => .error (.parse fault)
        | .ok m => .ok (some m)
  else .ok none

end Manifest

end ProblemBoard
