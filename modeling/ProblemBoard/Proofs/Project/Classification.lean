import ProblemBoard.Project.Resolution

/-!
# Frameworks of workspaces

What the framework of a workspace is, said by what stands in its root.  `Signature.Present` says
when a workspace has what a signature asks for, and `Classified` how the signatures, the type-check
configuration and the manifest decide together.  A manifest that cannot be used has no dependencies,
and it does not count as a manifest either: `Project.framework_eq_iff_classified` says so, and in
which workspaces this makes a difference.
-/

namespace ProblemBoard

variable {fs : FileSystem} {root : Path}

/-! ## Manifests that can be used -/

namespace Manifest

/-- The file of a workspace that holds its manifest can be read, and holds this manifest. -/
def Usable (fs : FileSystem) (root : Path) (m : Manifest) : Prop :=
  fs.isFile (path root) = true ∧ ∃ text, fs.readText (path root) = .ok text ∧ ofText text = .ok m

/-- A package stands in one of the dependency tables. -/
def Lists (m : Manifest) (package : String) : Prop :=
  package ∈ m.dependencies ∨ package ∈ m.devDependencies ∨ package ∈ m.peerDependencies

theorem dependsOn_iff {m : Manifest} {package : String} :
    m.dependsOn package = true ↔ m.Lists package := by
  simp [dependsOn, Lists, or_assoc]

theorem read_eq_some_iff {m : Manifest} : read fs root = .ok (some m) ↔ Usable fs root m := by
  unfold read Usable
  cases fs.isFile (path root) with
  | false => simp
  | true =>
    cases fs.readText (path root) with
    | error e => simp
    | ok text =>
      simp only [if_true, true_and, Except.ok.injEq, exists_eq_left']
      cases ofText text <;> simp

end Manifest

theorem Project.resolveManifest_eq_some_iff {m : Manifest} :
    (resolveManifest fs root).1 = some m ↔ Manifest.Usable fs root m := by
  rw [← Manifest.read_eq_some_iff, resolveManifest]
  cases Manifest.read fs root <;> simp

/-! ## Type-check configurations -/

theorem FileSystem.firstFile_isSome_iff {names : List String} :
    (fs.firstFile root names).isSome = true ↔
      ∃ name ∈ names, fs.isFile (root.child name) = true := by
  simp [firstFile, List.find?_isSome]

namespace Project

theorem tryOverride_isSome_iff {kind : ConfigKind} {named : Option Path} :
    (tryOverride fs root kind named).1.isSome = true ↔
      ∃ p, named = some p ∧ fs.isFile (root.under p) = true := by
  cases named with
  | none => simp [tryOverride]
  | some p =>
    simp only [tryOverride, Option.some.injEq, exists_eq_left']
    cases fs.isFile (root.under p) <;> simp

/-- A type-check configuration is resolved if the user names a file, or a file in the workspace
root has one of the conventional names. -/
theorem typeCheckConfig_isSome_iff {o : Overrides} :
    (resolve fs root o).typeCheckConfig.isSome = true ↔
      (∃ p, o.typeCheck = some p ∧ fs.isFile (root.under p) = true) ∨
        ∃ name ∈ typeCheckNames, fs.isFile (root.child name) = true := by
  rw [typeCheckConfig_resolve, Option.orElse_eq_orElse, Option.orElse_eq_or, Option.isSome_or,
    Bool.or_eq_true, tryOverride_isSome_iff, FileSystem.firstFile_isSome_iff]

end Project

/-! ## Signatures -/

namespace Framework

/-- A workspace has what a signature asks for: one of its markers, and the package it asks for in
a dependency table of a manifest that can be used. -/
def Signature.Present (fs : FileSystem) (root : Path) (s : Signature) : Prop :=
  (∃ marker ∈ s.markers, fs.isFile (root.child marker) = true) ∧
    ∀ package, s.dependency = some package →
      ∃ m, Manifest.Usable fs root m ∧ m.Lists package

theorem Signature.fits_iff {s : Signature} :
    s.fits fs root (Project.resolveManifest fs root).1 = true ↔ s.Present fs root := by
  rw [fits, Present, Bool.and_eq_true, List.any_eq_true]
  apply and_congr_right
  intro _
  cases s.dependency with
  | none => simp
  | some package =>
    simp [Option.any_eq_true, Project.resolveManifest_eq_some_iff, Manifest.dependsOn_iff]

/-- What a workspace is.  The first signature that is present decides; without one it is typed if it
has a type-check configuration, else plain if it has a manifest. -/
inductive Classified (fs : FileSystem) (root : Path) (TypeChecked HasManifest : Prop) :
    Option Framework → Prop where
  | signature {before after : List Signature} {s : Signature} :
      signatures = before ++ s :: after →
      (∀ t ∈ before, ¬t.Present fs root) →
      s.Present fs root →
      Classified fs root TypeChecked HasManifest (some s.framework)
  | typed :
      (∀ s ∈ signatures, ¬s.Present fs root) →
      TypeChecked →
      Classified fs root TypeChecked HasManifest (some typed)
  | plain :
      (∀ s ∈ signatures, ¬s.Present fs root) →
      ¬TypeChecked →
      HasManifest →
      Classified fs root TypeChecked HasManifest (some plain)
  | unknown :
      (∀ s ∈ signatures, ¬s.Present fs root) →
      ¬TypeChecked →
      ¬HasManifest →
      Classified fs root TypeChecked HasManifest none

section
variable {manifest : Option Manifest} {typeChecked : Bool}

theorem detect_of_signature {s : Signature}
    (h : signatures.find? (·.fits fs root manifest) = some s) :
    detect fs root manifest typeChecked = some s.framework := by
  rw [detect, h]

theorem detect_of_none (h : signatures.find? (·.fits fs root manifest) = none) :
    detect fs root manifest typeChecked =
      if typeChecked then some typed else if manifest.isSome then some plain else none := by
  rw [detect, h]

end

theorem find_fits_eq_some_iff {s : Signature} :
    signatures.find? (·.fits fs root (Project.resolveManifest fs root).1) = some s ↔
      s.Present fs root ∧ ∃ before after, signatures = before ++ s :: after ∧
        ∀ t ∈ before, ¬t.Present fs root := by
  simp only [List.find?_eq_some_iff_append, Signature.fits_iff, Bool.not_eq_true',
    ← Bool.not_eq_true]

theorem find_fits_eq_none_iff :
    signatures.find? (·.fits fs root (Project.resolveManifest fs root).1) = none ↔
      ∀ s ∈ signatures, ¬s.Present fs root := by
  simp only [List.find?_eq_none, Signature.fits_iff]

/-- The framework that is detected is what the workspace is, where only a manifest that can be used
counts as one. -/
theorem detect_eq_iff_classified {typeChecked : Bool} {r : Option Framework} :
    detect fs root (Project.resolveManifest fs root).1 typeChecked = r ↔
      Classified fs root (typeChecked = true) (∃ m, Manifest.Usable fs root m) r := by
  have hmanifest : (Project.resolveManifest fs root).1.isSome = true ↔
      ∃ m, Manifest.Usable fs root m := by
    rw [Option.isSome_iff_exists]
    exact exists_congr fun m => Project.resolveManifest_eq_some_iff
  constructor
  · rintro rfl
    cases hfind : signatures.find? (·.fits fs root (Project.resolveManifest fs root).1) with
    | some s =>
      obtain ⟨hpresent, before, after, hs, hbefore⟩ := find_fits_eq_some_iff.1 hfind
      rw [detect_of_signature hfind]
      exact .signature hs hbefore hpresent
    | none =>
      have hnone := find_fits_eq_none_iff.1 hfind
      rw [detect_of_none hfind]
      split
      · next htyped => exact .typed hnone htyped
      · next huntyped =>
        split
        · next hplain => exact .plain hnone huntyped (hmanifest.1 hplain)
        · next hno => exact .unknown hnone huntyped (mt hmanifest.2 hno)
  · intro h
    cases h with
    | signature hs hbefore hpresent =>
      exact detect_of_signature (find_fits_eq_some_iff.2 ⟨hpresent, _, _, hs, hbefore⟩)
    | typed hnone htyped =>
      rw [detect_of_none (find_fits_eq_none_iff.2 hnone), if_pos htyped]
    | plain hnone huntyped hplain =>
      rw [detect_of_none (find_fits_eq_none_iff.2 hnone), if_neg huntyped,
        if_pos (hmanifest.2 hplain)]
    | unknown hnone huntyped hno =>
      rw [detect_of_none (find_fits_eq_none_iff.2 hnone), if_neg huntyped,
        if_neg (mt hmanifest.1 hno)]

/-- To count more as a manifest changes what a workspace is only if nothing but the manifest
decides, and it did not count before. -/
theorem Classified.iff_of_imp {TypeChecked HasManifest HasManifest' : Prop} {r : Option Framework}
    (h : Classified fs root TypeChecked HasManifest r) (himp : HasManifest → HasManifest') :
    Classified fs root TypeChecked HasManifest' r ↔
      ¬((∀ s ∈ signatures, ¬s.Present fs root) ∧ ¬TypeChecked ∧ HasManifest' ∧ ¬HasManifest) := by
  cases h with
  | signature hs hbefore hpresent =>
    refine iff_of_true (.signature hs hbefore hpresent) fun hnone => ?_
    exact hnone.1 _ (hs ▸ List.mem_append_right _ (.head _)) hpresent
  | typed hnone htyped => exact iff_of_true (.typed hnone htyped) fun h => h.2.1 htyped
  | plain hnone huntyped hplain =>
    exact iff_of_true (.plain hnone huntyped (himp hplain)) fun h => h.2.2.2 hplain
  | unknown hnone huntyped hno =>
    constructor
    · intro h hbad
      cases h with
      | unknown _ _ hno' => exact hno' hbad.2.2.1
    · intro hgood
      exact .unknown hnone huntyped fun hplain => hgood ⟨hnone, huntyped, hplain, hno⟩

end Framework

/-! ## Resolutions -/

namespace Project

open Framework

/-- The framework of a project is that of the first signature in the order of the table that is
present; without one the project is typed if a type-check configuration is resolved, which is one
that the user names or one of a conventional name, else plain if it has a manifest that can be used,
else unknown.  A file that cannot be used as a manifest makes a difference just where nothing else
decides: such a project would be plain, and is unknown. -/
theorem framework_eq_iff_classified (fs : FileSystem) (root : Path) (o : Overrides) :
    (∀ r, (resolve fs root o).framework = r ↔
        Classified fs root ((resolve fs root o).typeCheckConfig.isSome = true)
          (∃ m, Manifest.Usable fs root m) r) ∧
      ((resolve fs root o).typeCheckConfig.isSome = true ↔
        (∃ p, o.typeCheck = some p ∧ fs.isFile (root.under p) = true) ∨
          ∃ name ∈ typeCheckNames, fs.isFile (root.child name) = true) ∧
      (Classified fs root ((resolve fs root o).typeCheckConfig.isSome = true)
          (fs.isFile (Manifest.path root) = true) (resolve fs root o).framework ↔
        ¬((∀ s ∈ signatures, ¬s.Present fs root) ∧
          ¬(resolve fs root o).typeCheckConfig.isSome = true ∧
          fs.isFile (Manifest.path root) = true ∧ ¬∃ m, Manifest.Usable fs root m)) := by
  have hdetect : ∀ r, (resolve fs root o).framework = r ↔
      Classified fs root ((resolve fs root o).typeCheckConfig.isSome = true)
        (∃ m, Manifest.Usable fs root m) r := by
    intro r
    rw [framework_resolve]
    exact detect_eq_iff_classified
  refine ⟨hdetect, typeCheckConfig_isSome_iff, ((hdetect _).1 rfl).iff_of_imp ?_⟩
  rintro ⟨m, hfile, -⟩
  exact hfile

/-- A workspace with nothing but a manifest that ends behind its first brace. -/
def brokenManifest : FileSystem :=
  .holding [(⟨"/ws/package.json"⟩, .file (.ok [0x7b]) false)]

/-- A workspace with nothing but a manifest that ends behind its first brace has no framework. -/
theorem framework_of_unusable_manifest :
    ¬ ∀ (fs : FileSystem) (root : Path) (o : Overrides),
      Classified fs root ((resolve fs root o).typeCheckConfig.isSome = true)
        (fs.isFile (Manifest.path root) = true) (resolve fs root o).framework := by
  intro h
  have hplain := h brokenManifest ⟨"/ws"⟩ .none
  have hnone : (resolve brokenManifest ⟨"/ws"⟩ .none).framework = none := by decide +kernel
  rw [hnone] at hplain
  cases hplain with
  | unknown _ _ hno => exact hno (by decide)

end Project

end ProblemBoard
