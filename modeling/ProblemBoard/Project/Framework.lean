import ProblemBoard.FileSystem.Basic
import ProblemBoard.Project.Manifest

/-!
# Frameworks

A framework is recognized by a file in the workspace root, some of them only together with
a package that the manifest depends on.  The first signature of the table that fits wins.
A framework brings the patterns of what it builds, which is never worth a problem, and says
whether the checker that knows its components takes the place of the plain one.
-/

namespace ProblemBoard

/-- A framework as far as it matters for collecting problems. -/
structure Framework where
  name : String
  excludes : List String
  /-- Whether the type checker for its components is used. -/
  componentChecker : Bool
  deriving DecidableEq, Repr

namespace Framework

/-- How a framework is recognized. -/
structure Signature where
  framework : Framework
  /-- The files of which one must stand in the workspace root. -/
  markers : List String
  /-- The package that the manifest must depend on, if any. -/
  dependency : Option String
  deriving DecidableEq, Repr

/-- The names of the configuration of the build tool that several frameworks share. -/
def viteMarkers : List String := ["vite.config.ts", "vite.config.js", "vite.config.mjs"]

/-- The signatures in the order in which they are tried. -/
def signatures : List Signature :=
  [⟨⟨"Nuxt", ["**/.nuxt/**", "**/.output/**"], true⟩,
     ["nuxt.config.ts", "nuxt.config.js", "nuxt.config.mjs"], none⟩,
   ⟨⟨"Next.js", ["**/.next/**", "**/out/**"], false⟩,
     ["next.config.js", "next.config.mjs", "next.config.ts"], none⟩,
   ⟨⟨"SvelteKit", ["**/.svelte-kit/**", "**/build/**"], false⟩,
     ["svelte.config.js", "svelte.config.mjs"], some "@sveltejs/kit"⟩,
   ⟨⟨"Astro", ["**/.astro/**", "**/dist/**"], false⟩,
     ["astro.config.mjs", "astro.config.ts", "astro.config.js"], none⟩,
   ⟨⟨"Angular", ["**/.angular/**", "**/dist/**"], false⟩, ["angular.json"], none⟩,
   ⟨⟨"Remix", ["**/build/**", "**/public/build/**", "**/.cache/**"], false⟩,
     ["remix.config.js", "remix.config.mjs"], none⟩,
   ⟨⟨"Gatsby", ["**/.cache/**", "**/public/**"], false⟩,
     ["gatsby-config.js", "gatsby-config.ts"], none⟩,
   ⟨⟨"Vue (Vite)", ["**/dist/**"], true⟩, viteMarkers, some "vue"⟩,
   ⟨⟨"React (Vite)", ["**/dist/**"], false⟩, viteMarkers, some "react"⟩,
   ⟨⟨"Vue CLI", ["**/dist/**"], true⟩, ["vue.config.js"], some "@vue/cli-service"⟩]

/-- A workspace with type-check configuration and without a known framework. -/
def typed : Framework := ⟨"TypeScript", [], false⟩

/-- A workspace with a manifest and without type-check configuration or known framework. -/
def plain : Framework := ⟨"JavaScript", [], false⟩

def isMarker (name : String) : Bool := signatures.any fun s => s.markers.contains name

/-- Whether the workspace has what a signature asks for. -/
def Signature.fits (fs : FileSystem) (root : Path) (manifest : Option Manifest)
    (s : Signature) : Bool :=
  (s.markers.any fun marker => fs.isFile (root.child marker)) &&
    match s.dependency with
    | none => true
    | some package => manifest.any (·.dependsOn package)

def detect (fs : FileSystem) (root : Path) (manifest : Option Manifest) (hasTypeCheck : Bool) :
    Option Framework :=
  match signatures.find? (·.fits fs root manifest) with
  | some s => some s.framework
  | none =>
      if hasTypeCheck then some typed else if manifest.isSome then some plain else none

end Framework

end ProblemBoard
