import ProblemBoard.Proofs.Path.Components
import ProblemBoard.Terminal.Change

/-!
# Batches of changed files

A batch asks for as much as the one of its files that asks for the most, `strength_ofBatch_cons`.
So it does not matter in which order files change, how often they are named, or where a burst of
changes is cut into batches: `strength_of_batches`.

A file below an ignored directory asks for nothing, and the settings file in use is no exception.
So its changes are recognized where it lies outside of these directories, and nowhere else:
`change_in_use_recognized_iff`.  The settings file in a home directory always lies in one of them.
-/

namespace ProblemBoard.Terminal.Change

/-! ## Single files -/

/-- How much is asked for: nothing, a scan, resolving the project, or reading the settings. -/
def strength : Option Change → Nat
  | none => 0
  | some .sources => 1
  | some .projectConfig => 2
  | some (.settings _) => 3

/-- How much a single file asks for. -/
def fileStrength (inUse : Option Path) (p : Path) : Nat :=
  if isIgnored p then 0
  else if isSettings inUse p then 3
  else if Project.isAffectedBy p then 2
  else 1

theorem strength_le (c : Option Change) : strength c ≤ 3 := by
  rcases c with _ | _ | _ | _ <;> simp [strength]

section
variable {p q : Path}

theorem isIgnored_eq_of_same (h : p.same q = true) : isIgnored p = isIgnored q := by
  rw [isIgnored, isIgnored, Path.same_iff.1 h]

theorem isSettings_eq_of_same (inUse : Option Path) (h : p.same q = true) :
    isSettings inUse p = isSettings inUse q := by
  have hsame : p.same = q.same := by
    funext s
    rw [Path.same, Path.same, Path.same_iff.1 h]
  rw [isSettings, isSettings, hsame, Path.fileName_eq_of_same h]

/-- How much a file asks for does not depend on the spelling of its path. -/
theorem fileStrength_eq_of_same (inUse : Option Path) (h : p.same q = true) :
    fileStrength inUse p = fileStrength inUse q := by
  rw [fileStrength, fileStrength, isIgnored_eq_of_same h, isSettings_eq_of_same inUse h,
    Project.isAffectedBy, Project.isAffectedBy, Path.fileName_eq_of_same h]

/-- An entry is ignored with its directory, or for its own name. -/
theorem isIgnored_child (dir : Path) {name : String} (h : Path.IsName name) :
    isIgnored (dir.child name) = (isIgnored dir || ignoredNames.contains name) := by
  rw [isIgnored, Path.components_child dir h, List.any_append, List.any_cons, List.any_nil,
    Bool.or_false]
  rfl

/-- The settings file in a home directory is ignored, for the directory that it lies in. -/
theorem isIgnored_homeFile (home : Path) : isIgnored (Settings.homeFile home) = true := by
  have hdir : Path.IsName Settings.directoryName := by decide
  have hfile : Path.IsName "config.toml" := by decide
  have hname : ignoredNames.contains Settings.directoryName = true := by decide
  rw [Settings.homeFile, isIgnored_child _ hfile, isIgnored_child _ hdir, hname]
  simp

/-- The settings file in a workspace root is ignored if the root is. -/
theorem isIgnored_workspaceFile (root : Path) :
    isIgnored (root.child Settings.workspaceFile) = isIgnored root := by
  have hfile : Path.IsName Settings.workspaceFile := by decide
  have hname : ignoredNames.contains Settings.workspaceFile = false := by decide
  rw [isIgnored_child _ hfile, hname, Bool.or_false]

end

/-! ## One more file -/

section
variable {inUse : Option Path} {a b files : List Path} {p : Path}

theorem ofBatch_cons_of_isIgnored (h : isIgnored p = true) :
    ofBatch (p :: files) inUse = ofBatch files inUse := by
  rw [ofBatch, ofBatch, List.filter_cons_of_neg (by simp [h])]

theorem ofBatch_cons_of_isSettings (h : isIgnored p = false) (hs : isSettings inUse p = true) :
    ofBatch (p :: files) inUse = some (.settings p) := by
  rw [ofBatch, List.filter_cons_of_pos (by simp [h]), List.find?_cons_of_pos hs]

/-- A file that is no settings file counts where the others ask for less than it. -/
theorem ofBatch_cons_of_not_isSettings (h : isIgnored p = false)
    (hs : isSettings inUse p = false) :
    ofBatch (p :: files) inUse =
      match ofBatch files inUse with
      | some (.settings q) => some (.settings q)
      | some .projectConfig => some .projectConfig
      | _ => if Project.isAffectedBy p then some .projectConfig else some .sources := by
  rw [ofBatch, ofBatch, List.filter_cons_of_pos (by simp [h]),
    List.find?_cons_of_neg (by simp [hs]), List.any_cons]
  generalize files.filter (fun q => !isIgnored q) = relevant
  cases relevant.find? (isSettings inUse) with
  | some q => rfl
  | none =>
    cases relevant.any Project.isAffectedBy with
    | true => simp
    | false =>
      rw [Bool.or_false]
      cases relevant.isEmpty <;> rfl

/-- One more file raises what a batch asks for to what the file asks for. -/
theorem strength_ofBatch_cons (inUse : Option Path) (p : Path) (files : List Path) :
    strength (ofBatch (p :: files) inUse) =
      max (fileStrength inUse p) (strength (ofBatch files inUse)) := by
  unfold fileStrength
  cases hignored : isIgnored p with
  | true =>
    rw [ofBatch_cons_of_isIgnored hignored]
    exact (Nat.zero_max _).symm
  | false =>
    cases hsettings : isSettings inUse p with
    | true =>
      rw [ofBatch_cons_of_isSettings hignored hsettings]
      exact (Nat.max_eq_left (strength_le _)).symm
    | false =>
      rw [ofBatch_cons_of_not_isSettings hignored hsettings]
      rcases ofBatch files inUse with _ | _ | _ | _ <;> cases Project.isAffectedBy p <;> rfl

/-- What a file asks for, a batch with it asks for. -/
theorem fileStrength_le_of_mem (h : p ∈ files) :
    fileStrength inUse p ≤ strength (ofBatch files inUse) := by
  induction files with
  | nil => cases h
  | cons q files ih =>
    rw [strength_ofBatch_cons]
    rcases List.mem_cons.1 h with rfl | h
    · exact Nat.le_max_left _ _
    · exact Nat.le_trans (ih h) (Nat.le_max_right _ _)

/-- A batch asks for no more than all of its files. -/
theorem strength_ofBatch_le {k : Nat} (h : ∀ p ∈ files, fileStrength inUse p ≤ k) :
    strength (ofBatch files inUse) ≤ k := by
  induction files with
  | nil => exact Nat.zero_le k
  | cons p files ih =>
    rw [strength_ofBatch_cons]
    exact Nat.max_le.2 ⟨h p (.head _), ih fun q hq => h q (.tail _ hq)⟩

/-! ## Batches put together -/

theorem strength_ofBatch_append (inUse : Option Path) (a b : List Path) :
    strength (ofBatch (a ++ b) inUse) =
      max (strength (ofBatch a inUse)) (strength (ofBatch b inUse)) := by
  induction a with
  | nil => exact (Nat.zero_max _).symm
  | cons p a ih =>
    rw [List.cons_append, strength_ofBatch_cons, strength_ofBatch_cons, ih, Nat.max_assoc]

/-- A burst asks for as much as the one of its batches that asks for the most. -/
theorem strength_ofBatch_flatten (inUse : Option Path) (batches : List (List Path)) :
    strength (ofBatch batches.flatten inUse) =
      (batches.map fun b => strength (ofBatch b inUse)).foldr max 0 := by
  induction batches with
  | nil => rfl
  | cons b batches ih =>
    rw [List.flatten_cons, strength_ofBatch_append, ih]
    rfl

/-- A batch that names all the files of another one asks for no less, however it spells them. -/
theorem strength_ofBatch_mono (h : ∀ p ∈ a, ∃ q ∈ b, p.same q = true) :
    strength (ofBatch a inUse) ≤ strength (ofBatch b inUse) := by
  refine strength_ofBatch_le fun p hp => ?_
  obtain ⟨q, hq, hpq⟩ := h p hp
  rw [fileStrength_eq_of_same inUse hpq]
  exact fileStrength_le_of_mem hq

theorem ofBatch_eq_of_filter_eq
    (h : a.filter (fun p => !isIgnored p) = b.filter fun p => !isIgnored p) :
    ofBatch a inUse = ofBatch b inUse := by
  rw [ofBatch, ofBatch, h]

/-- The settings file that is read again is the first one that is not ignored. -/
theorem ofBatch_eq_settings_iff :
    ofBatch files inUse = some (.settings p) ↔
      ∃ front back, files = front ++ p :: back ∧
        isIgnored p = false ∧ isSettings inUse p = true ∧
          ∀ q ∈ front, isIgnored q = true ∨ isSettings inUse q = false := by
  have hfind : ofBatch files inUse = some (.settings p) ↔
      (files.filter fun q => !isIgnored q).find? (isSettings inUse) = some p := by
    rw [ofBatch]
    split
    · next q hq => rw [hq, Option.some.injEq, Option.some.injEq, Change.settings.injEq]
    · next hnone =>
      rw [hnone]
      split
      · simp
      · split <;> simp
  rw [hfind, List.find?_filter, List.find?_eq_some_iff_append]
  constructor
  · rintro ⟨hp, front, back, hfiles, hfront⟩
    have hp : isIgnored p = false ∧ isSettings inUse p = true := by simpa using hp
    refine ⟨front, back, hfiles, hp.1, hp.2, fun q hq => ?_⟩
    have hq := hfront q hq
    cases hi : isIgnored q with
    | true => exact .inl rfl
    | false => exact .inr (by simpa [hi] using hq)
  · rintro ⟨front, back, hfiles, hignored, hsettings, hfront⟩
    refine ⟨by simp [hignored, hsettings], front, back, hfiles, fun q hq => ?_⟩
    rcases hfront q hq with h | h <;> simp [h]

end

/-- A batch of one file asks for what the file asks for, and batches that are put together for as
much as the one of them that asks for the most.  So it counts which files are named and nothing
else: not how they are spelled, in which order they come or how often.  Ignored files leave
everything as it is, and the settings file that is read again is the first one among the others. -/
theorem strength_of_batches (inUse : Option Path) :
    (∀ p, strength (ofBatch [p] inUse) = fileStrength inUse p) ∧
    (∀ a b, strength (ofBatch (a ++ b) inUse) =
      max (strength (ofBatch a inUse)) (strength (ofBatch b inUse))) ∧
    (∀ batches : List (List Path), strength (ofBatch batches.flatten inUse) =
      (batches.map fun b => strength (ofBatch b inUse)).foldr max 0) ∧
    (∀ a b : List Path, (∀ p ∈ a, ∃ q ∈ b, p.same q = true) →
      strength (ofBatch a inUse) ≤ strength (ofBatch b inUse)) ∧
    (∀ a b : List Path, (∀ p ∈ a, ∃ q ∈ b, p.same q = true) → (∀ q ∈ b, ∃ p ∈ a, q.same p = true) →
      strength (ofBatch a inUse) = strength (ofBatch b inUse)) ∧
    (∀ a b : List Path, a.filter (fun p => !isIgnored p) = b.filter (fun p => !isIgnored p) →
      ofBatch a inUse = ofBatch b inUse) ∧
    ∀ files p, ofBatch files inUse = some (.settings p) ↔
      ∃ front back, files = front ++ p :: back ∧
        isIgnored p = false ∧ isSettings inUse p = true ∧
          ∀ q ∈ front, isIgnored q = true ∨ isSettings inUse q = false := by
  refine ⟨fun p => ?_, strength_ofBatch_append inUse, strength_ofBatch_flatten inUse,
    fun _ _ => strength_ofBatch_mono, fun a b hab hba => ?_, fun _ _ => ofBatch_eq_of_filter_eq,
    fun _ _ => ofBatch_eq_settings_iff⟩
  · rw [strength_ofBatch_cons]
    exact Nat.max_zero _
  · exact Nat.le_antisymm (strength_ofBatch_mono hab) (strength_ofBatch_mono hba)

/-- A configuration file is named twice and a source file once, in two spellings.  A file of a
package that has the name of a configuration file does not count. -/
theorem strength_of_batches_respelled :
    let a : List Path := [⟨"/ws/src/a.ts"⟩, ⟨"/ws/tsconfig.json"⟩, ⟨"/ws/tsconfig.json"⟩]
    let b : List Path := [⟨"/ws/./tsconfig.json"⟩, ⟨"/ws//src/a.ts"⟩]
    let c : List Path := [⟨"/ws/node_modules/vue/tsconfig.json"⟩, ⟨"/ws/src/a.ts"⟩]
    (∀ p ∈ a, ∃ q ∈ b, p.same q = true) ∧ (∀ q ∈ b, ∃ p ∈ a, q.same p = true) ∧
      strength (ofBatch a none) = strength (ofBatch b none) ∧
      strength (ofBatch c none) ≤ strength (ofBatch (c ++ a) none) ∧
      c.filter (fun p => !isIgnored p) = [⟨"/ws/src/a.ts"⟩] ∧
      ofBatch c none = some .sources ∧ ofBatch (c ++ a) none = some .projectConfig := by
  intro a b c
  have hab : ∀ p ∈ a, ∃ q ∈ b, p.same q = true := by decide +kernel
  have hba : ∀ q ∈ b, ∃ p ∈ a, q.same p = true := by decide +kernel
  have hc : ∀ p ∈ c, ∃ q ∈ c ++ a, p.same q = true :=
    fun p hp => ⟨p, List.mem_append_left _ hp, p.same_refl⟩
  have hsource : c.filter (fun p => !isIgnored p) =
      [⟨"/ws/src/a.ts"⟩].filter fun p => !isIgnored p := by decide +kernel
  obtain ⟨-, -, -, hmono, heq, hfilter, -⟩ := strength_of_batches none
  refine ⟨hab, hba, heq a b hab hba, hmono c (c ++ a) hc, by decide +kernel, ?_, by decide +kernel⟩
  rw [hfilter c _ hsource]
  decide +kernel

/-! ## The settings file in use -/

section
variable {files : List Path} {s : Path}

/-- A batch with the settings file in use is recognized if that file is read again, or one of the
name that is looked for. -/
def Recognized (files : List Path) (s : Path) : Prop :=
  ∃ p ∈ files, (p.same s = true ∨ p.fileName = some Settings.workspaceFile) ∧
    ofBatch files (some s) = some (.settings p)

theorem isSettings_some_iff {p : Path} :
    isSettings (some s) p = true ↔ p.same s = true ∨ p.fileName = some Settings.workspaceFile := by
  simp [isSettings]

theorem exists_settings_of_mem {inUse : Option Path} {p : Path} (hp : p ∈ files)
    (hi : isIgnored p = false) (hs : isSettings inUse p = true) :
    ∃ q, ofBatch files inUse = some (.settings q) := by
  have hle : fileStrength inUse p ≤ strength (ofBatch files inUse) := fileStrength_le_of_mem hp
  rw [fileStrength, hi, hs] at hle
  rcases h : ofBatch files inUse with _ | _ | _ | q
  · simp [h, strength] at hle
  · simp [h, strength] at hle
  · simp [h, strength] at hle
  · exact ⟨q, rfl⟩

/-- A batch is recognized for one of its files that is not ignored. -/
theorem recognized_iff :
    Recognized files s ↔ ∃ p ∈ files, isIgnored p = false ∧ isSettings (some s) p = true := by
  constructor
  · rintro ⟨p, hp, -, hbatch⟩
    obtain ⟨-, -, -, hignored, hsettings, -⟩ := ofBatch_eq_settings_iff.1 hbatch
    exact ⟨p, hp, hignored, hsettings⟩
  · rintro ⟨p, hp, hignored, hsettings⟩
    obtain ⟨q, hbatch⟩ := exists_settings_of_mem hp hignored hsettings
    obtain ⟨front, back, rfl, -, hq, -⟩ := ofBatch_eq_settings_iff.1 hbatch
    exact ⟨q, List.mem_append_right _ (.head _), isSettings_some_iff.1 hq, hbatch⟩

/-- A settings file that is ignored might as well not be in use, and its changes not happen. -/
theorem ofBatch_of_isIgnored (h : isIgnored s = true) :
    ofBatch files (some s) = ofBatch (files.filter fun p => !p.same s) none := by
  have hother : ∀ p, isIgnored p = false → p.same s = false := by
    intro p hp
    apply Bool.eq_false_iff.2
    intro hsame
    rw [isIgnored_eq_of_same hsame, h] at hp
    cases hp
  have hrelevant : (files.filter fun p => !p.same s).filter (fun p => !isIgnored p) =
      files.filter fun p => !isIgnored p := by
    rw [List.filter_filter]
    refine List.filter_congr fun p _ => ?_
    cases hp : isIgnored p with
    | true => rfl
    | false => simp [hother p hp]
  have hfind : (files.filter fun p => !isIgnored p).find? (isSettings (some s)) =
      (files.filter fun p => !isIgnored p).find? (isSettings none) := by
    rw [← List.head?_filter, ← List.head?_filter]
    congr 1
    refine List.filter_congr fun p hp => ?_
    have hi : isIgnored p = false := by simpa using (List.mem_filter.1 hp).2
    simp [isSettings, hother p hi]
  rw [ofBatch, ofBatch, hrelevant, hfind]

theorem source_of_discover {fs : FileSystem} {root home : Path} {named : Option Path}
    {settings : Settings} (h : Settings.discover fs root home named = .ok (settings, some s)) :
    named = some s ∨ s = root.child Settings.workspaceFile ∨ s = Settings.homeFile home := by
  unfold Settings.discover at h
  split at h
  · next p hp =>
    obtain rfl : p = s := by
      cases hload : Settings.load fs p with
      | error e => simp [hload, Except.map] at h
      | ok t => simpa [hload, Except.map] using (congrArg (Except.map Prod.snd) h)
    cases named with
    | some q => exact .inl hp
    | none =>
      have hmem := List.mem_of_find?_eq_some (Option.none_or.symm.trans hp)
      simpa using hmem
  · cases h

/-- A batch with the settings file in use is recognized where that file is not below an ignored
directory, whatever else changes.  A change of an ignored one counts for nothing, so that only
another settings file of the batch makes the settings be read again.  The settings file in a home
directory is always ignored, the one in a workspace root if the root is. -/
theorem change_in_use_recognized_iff (hs : ∃ p ∈ files, p.same s = true) :
    (Recognized files s ↔ isIgnored s = false ∨
      ∃ p ∈ files, isIgnored p = false ∧ p.fileName = some Settings.workspaceFile) ∧
    (isIgnored s = true →
      ofBatch files (some s) = ofBatch (files.filter fun p => !p.same s) none) ∧
    ∀ (fs : FileSystem) (root home : Path) (named : Option Path) (settings : Settings),
      Settings.discover fs root home named = .ok (settings, some s) →
        named = some s ∨
          s = root.child Settings.workspaceFile ∧ isIgnored s = isIgnored root ∨
          s = Settings.homeFile home ∧ isIgnored s = true := by
  refine ⟨?_, ofBatch_of_isIgnored, fun fs root home named settings h => ?_⟩
  · rw [recognized_iff]
    constructor
    · rintro ⟨p, hp, hignored, hsettings⟩
      rcases isSettings_some_iff.1 hsettings with hsame | hname
      · exact .inl (isIgnored_eq_of_same hsame ▸ hignored)
      · exact .inr ⟨p, hp, hignored, hname⟩
    · rintro (hignored | ⟨p, hp, hignored, hname⟩)
      · obtain ⟨p, hp, hsame⟩ := hs
        exact ⟨p, hp, isIgnored_eq_of_same hsame ▸ hignored, isSettings_some_iff.2 (.inl hsame)⟩
      · exact ⟨p, hp, hignored, isSettings_some_iff.2 (.inr hname)⟩
  · rcases source_of_discover h with hnamed | rfl | rfl
    · exact .inl hnamed
    · exact .inr (.inl ⟨rfl, isIgnored_workspaceFile root⟩)
    · exact .inr (.inr ⟨rfl, isIgnored_homeFile home⟩)

/-- A file system that holds an empty settings file in the home directory and nothing else. -/
def homeSettings : FileSystem :=
  ⟨fun p => if p = Settings.homeFile ⟨"/home"⟩ then .ok (.file (.ok []) false) else .error .missing⟩

theorem discover_homeSettings :
    Settings.discover homeSettings ⟨"/home"⟩ ⟨"/home"⟩ none =
      .ok (.default, some (Settings.homeFile ⟨"/home"⟩)) := by
  rfl

/-- A settings file far from the workspace is recognized in a batch with ignored files and with a
configuration file.  The one in the home directory is not, and only the source file that changes
with it is seen. -/
theorem change_in_use_recognized_elsewhere :
    let far : List Path := [⟨"/ws/.git/index"⟩, ⟨"/ws/tsconfig.json"⟩, ⟨"/etc//lint.toml"⟩]
    let near : List Path := [Settings.homeFile ⟨"/home"⟩, ⟨"/home/a.ts"⟩]
    (∃ p ∈ far, p.same ⟨"/etc/lint.toml"⟩ = true) ∧ Recognized far ⟨"/etc/lint.toml"⟩ ∧
      (∃ p ∈ near, p.same (Settings.homeFile ⟨"/home"⟩) = true) ∧
      isIgnored (Settings.homeFile ⟨"/home"⟩) = true ∧
      ofBatch near (some (Settings.homeFile ⟨"/home"⟩)) = some .sources := by
  intro far near
  have hfar : ∃ p ∈ far, p.same ⟨"/etc/lint.toml"⟩ = true := by decide +kernel
  have hnear : ∃ p ∈ near, p.same (Settings.homeFile ⟨"/home"⟩) = true :=
    ⟨_, .head _, Path.same_refl _⟩
  obtain ⟨-, hlost, hsource⟩ := change_in_use_recognized_iff hnear
  have hignored : isIgnored (Settings.homeFile ⟨"/home"⟩) = true := by
    rcases hsource _ _ _ _ _ discover_homeSettings with h | h | h
    · cases h
    · exact absurd h.1 (by decide)
    · exact h.2
  refine ⟨hfar, (change_in_use_recognized_iff hfar).1.2 (.inl (by decide)), hnear, hignored, ?_⟩
  rw [hlost hignored]
  decide +kernel

/-- The home directory is the workspace, and the settings in force come from the file in it.  A
change of that file is not recognized. -/
theorem change_of_home_file_lost :
    ¬ ∀ (fs : FileSystem) (root home : Path) (named : Option Path) (settings : Settings)
      (files : List Path) (s : Path),
      Settings.discover fs root home named = .ok (settings, some s) →
        (∃ p ∈ files, p.same s = true) → Recognized files s := by
  intro h
  obtain ⟨p, -, -, hbatch⟩ := h homeSettings ⟨"/home"⟩ ⟨"/home"⟩ none .default
    [Settings.homeFile ⟨"/home"⟩] _ discover_homeSettings ⟨_, .head _, Path.same_refl _⟩
  have hnone :
      ofBatch [Settings.homeFile ⟨"/home"⟩] (some (Settings.homeFile ⟨"/home"⟩)) = none := by
    decide +kernel
  rw [hnone] at hbatch
  cases hbatch

end

end ProblemBoard.Terminal.Change
