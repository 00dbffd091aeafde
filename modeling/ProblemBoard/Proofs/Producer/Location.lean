import ProblemBoard.Producer.Engine
import ProblemBoard.Proofs.FileSystem.Nesting

/-!
# Where engines are found

The copy of an engine that belongs to the workspace is the one in the nearest directory that has
one, and it wins over the installed ones, which come in the order of the search path:
`Engine.Located`.

The directory of a copy is handed on as a list of directories, and such a list is cut at its
colons.  So engines are located like that for workspace roots without a colon.  For every other root
there are files with which a program from elsewhere is taken in place of the own one:
`Engine.own_engine_wins`.
-/

namespace ProblemBoard

/-! ## Directories above a path -/

namespace Path

theorem subset_of_mem_leadingPieces {ps qs : List (List Char)} (h : qs ∈ leadingPieces ps) :
    qs ⊆ ps := by
  induction ps with
  | nil => cases h
  | cons p ps ih =>
    rw [leadingPieces] at h
    split at h
    · exact fun q hq => .tail _ (ih h hq)
    · rcases List.mem_cons.1 h with rfl | h
      · intro q hq
        exact .tail _ ((List.dropWhile_sublist isVoid).subset (List.mem_reverse.1 hq))
      · exact fun q hq => .tail _ (ih h hq)

theorem exists_mem_of_mem_glue {c : Char} (hc : c ≠ '/') {ps : List (List Char)} (h : c ∈ glue ps) :
    ∃ p ∈ ps, c ∈ p := by
  induction ps with
  | nil => cases h
  | cons p ps ih =>
    cases ps with
    | nil => exact ⟨p, .head _, by simpa [glue] using h⟩
    | cons q qs =>
      rw [glue, List.intercalate_cons_cons, List.append_assoc, List.mem_append, List.mem_append,
        List.mem_singleton] at h
      rcases h with h | h | h
      · exact ⟨p, .head _, h⟩
      · exact absurd h hc
      · obtain ⟨r, hr, hcr⟩ := ih h
        exact ⟨r, .tail _ hr, hcr⟩

section
variable {p dir : Path} (habs : p.isAbsolute = true)
include habs

theorem parents_of_isAbsolute :
    p.parents =
      (leadingPieces p.bodyPieces.reverse).map fun ps => ⟨String.ofList ('/' :: glue ps)⟩ :=
  if_pos habs

theorem isAbsolute_of_mem_ancestors (h : dir ∈ p.ancestors) : dir.isAbsolute = true := by
  rcases List.mem_cons.1 h with rfl | h
  · exact habs
  · rw [parents_of_isAbsolute habs] at h
    obtain ⟨ps, -, rfl⟩ := List.mem_map.1 h
    simp [isAbsolute]

/-- Apart from separators, a directory above a path is written with characters of the path. -/
theorem mem_text_of_mem_ancestors {c : Char} (hc : c ≠ '/') (h : dir ∈ p.ancestors)
    (hmem : c ∈ dir.text.toList) : c ∈ p.text.toList := by
  rcases List.mem_cons.1 h with rfl | h
  · exact hmem
  · rw [parents_of_isAbsolute habs] at h
    obtain ⟨ps, hps, rfl⟩ := List.mem_map.1 h
    rw [String.toList_ofList, List.mem_cons] at hmem
    obtain ⟨piece, hpiece, hcp⟩ := exists_mem_of_mem_glue hc (hmem.resolve_left hc)
    have hbody := List.mem_reverse.1 (subset_of_mem_leadingPieces hps hpiece)
    rw [bodyPieces, if_pos habs] at hbody
    exact List.mem_of_mem_tail ((Text.mem_iff_exists_mem_split hc).2 ⟨piece, hbody, hcp⟩)

end

/-- Apart from separators, an entry is written with the characters of its directory and its name. -/
theorem mem_text_child_iff {dir : Path} {name : String} (hname : '/' ∉ name.toList) {c : Char}
    (hc : c ≠ '/') :
    c ∈ (dir.child name).text.toList ↔ c ∈ dir.text.toList ∨ c ∈ name.toList := by
  rcases dir.text_child hname with ⟨hd, ht⟩ | ⟨front, hd, ht⟩ | ht
  · simp [hd, ht]
  · simp [hd, ht, hc]
  · simp [ht, hc]

end Path

theorem FileSystem.isFile_of_isProgram {fs : FileSystem} {p : Path} (h : fs.isProgram p = true) :
    fs.isFile p = true := by
  unfold isProgram at h
  split at h
  · next hentry => simp only [isFile, hentry]
  · cases h

namespace Engine

/-! ## Candidates -/

/-- The copy of an engine that would belong to a directory. -/
def localProgram (engine : String) (dir : Path) : Path := (localPrograms dir).child engine

/-- The engine as it would be installed in a directory of the search path. -/
def installedProgram (cwd : Path) (engine : String) (dir : Path) : Path :=
  (cwd.under dir).child engine

/-- What is to be located: the own copy from the nearest directory that has one, else the first one
in the directories of the search path. -/
inductive Located (fs : FileSystem) (root cwd : Path) (searchPath engine : String) :
    Option Path → Prop where
  | own {nearer farther : List Path} {dir : Path} :
      root.ancestors = nearer ++ dir :: farther →
      (∀ d ∈ nearer, fs.isProgram (localProgram engine d) = false) →
      fs.isProgram (localProgram engine dir) = true →
      Located fs root cwd searchPath engine (some (localProgram engine dir))
  | installed {earlier later : List Path} {dir : Path} :
      (∀ d ∈ root.ancestors, fs.isProgram (localProgram engine d) = false) →
      searchDirectories searchPath = earlier ++ dir :: later →
      (∀ d ∈ earlier, fs.isProgram (installedProgram cwd engine d) = false) →
      fs.isProgram (installedProgram cwd engine dir) = true →
      Located fs root cwd searchPath engine (some (installedProgram cwd engine dir))
  | absent :
      (∀ d ∈ root.ancestors, fs.isProgram (localProgram engine d) = false) →
      (∀ d ∈ searchDirectories searchPath, fs.isProgram (installedProgram cwd engine d) = false) →
      Located fs root cwd searchPath engine none

section
variable {fs : FileSystem} {root cwd dir : Path} {searchPath engine : String}

theorem find?_map_eq_some_iff {place : Path → Path} {dirs : List Path} {p : Path} :
    (dirs.map place).find? fs.isProgram = some p ↔
      ∃ earlier dir later, dirs = earlier ++ dir :: later ∧
        (∀ d ∈ earlier, fs.isProgram (place d) = false) ∧
          fs.isProgram (place dir) = true ∧ place dir = p := by
  rw [List.find?_map, Option.map_eq_some_iff]
  constructor
  · rintro ⟨dir, hfind, rfl⟩
    obtain ⟨hdir, earlier, later, hdirs, hearlier⟩ := List.find?_eq_some_iff_append.1 hfind
    exact ⟨earlier, dir, later, hdirs, fun d hd => by simpa using hearlier d hd, hdir, rfl⟩
  · rintro ⟨earlier, dir, later, hdirs, hearlier, hdir, rfl⟩
    exact ⟨dir, List.find?_eq_some_iff_append.2
      ⟨hdir, earlier, later, hdirs, fun d hd => by simpa using hearlier d hd⟩, rfl⟩

theorem find?_map_eq_none_iff {place : Path → Path} {dirs : List Path} :
    (dirs.map place).find? fs.isProgram = none ↔ ∀ d ∈ dirs, fs.isProgram (place d) = false := by
  simp

/-- There is one answer for what is to be located. -/
theorem located_iff {r : Option Path} :
    Located fs root cwd searchPath engine r ↔
      r = ((root.ancestors.map (localProgram engine)).find? fs.isProgram <|>
        ((searchDirectories searchPath).map (installedProgram cwd engine)).find? fs.isProgram) := by
  constructor
  · rintro (⟨hroot, hnearer, hdir⟩ | ⟨hroot, hpath, hearlier, hdir⟩ | ⟨hroot, hpath⟩)
    · rw [find?_map_eq_some_iff.2 ⟨_, _, _, hroot, hnearer, hdir, rfl⟩]
      rfl
    · rw [find?_map_eq_none_iff.2 hroot,
        find?_map_eq_some_iff.2 ⟨_, _, _, hpath, hearlier, hdir, rfl⟩]
      rfl
    · rw [find?_map_eq_none_iff.2 hroot, find?_map_eq_none_iff.2 hpath]
      rfl
  · rintro rfl
    cases hown : (root.ancestors.map (localProgram engine)).find? fs.isProgram with
    | some p =>
      obtain ⟨nearer, dir, farther, hroot, hnearer, hdir, rfl⟩ := find?_map_eq_some_iff.1 hown
      exact .own hroot hnearer hdir
    | none =>
      have hroot := find?_map_eq_none_iff.1 hown
      cases hinst :
          ((searchDirectories searchPath).map (installedProgram cwd engine)).find? fs.isProgram with
      | some p =>
        obtain ⟨earlier, dir, later, hpath, hearlier, hdir, rfl⟩ := find?_map_eq_some_iff.1 hinst
        exact .installed hroot hpath hearlier hdir
      | none => exact .absent hroot (find?_map_eq_none_iff.1 hinst)

/-- What is located is the copy of a directory above the workspace, or stands in a directory of the
search path. -/
theorem Located.mem {p : Path} (h : Located fs root cwd searchPath engine (some p)) :
    (∃ dir ∈ root.ancestors, p = localProgram engine dir) ∨
      ∃ dir ∈ searchDirectories searchPath, p = installedProgram cwd engine dir := by
  cases h with
  | @own nearer farther dir hroot _ _ =>
    exact .inl ⟨dir, hroot ▸ List.mem_append_right _ (.head _), rfl⟩
  | @installed earlier later dir _ hpath _ _ =>
    exact .inr ⟨dir, hpath ▸ List.mem_append_right _ (.head _), rfl⟩

/-- The copy in the workspace root itself wins. -/
theorem Located.eq_of_root {r : Option Path} (h : Located fs root cwd searchPath engine r)
    (hroot : fs.isProgram (localProgram engine root) = true) :
    r = some (localProgram engine root) := by
  rw [located_iff.1 h, Path.ancestors, List.map_cons, List.find?_cons_of_pos hroot]
  rfl

/-! ## Searching -/

theorem length_components_le_one (h : '/' ∉ engine.toList) :
    (Path.mk engine).components.length ≤ 1 := by
  have hpieces : Path.bodyPieces ⟨engine⟩ = [engine.toList] := by
    rw [Path.bodyPieces, if_neg (Bool.eq_false_iff.1 (Path.isAbsolute_of_not_mem h))]
    exact Text.split_of_not_mem h
  rw [Path.components, if_neg (Bool.eq_false_iff.1 (Path.isAbsolute_of_not_mem h)), hpieces]
  split
  · exact Nat.le_refl 1
  · exact List.length_filterMap_le _ _

/-- A name without separators is looked for in the directories. -/
theorem search_eq_find? (h : '/' ∉ engine.toList) (base : Path) (dirs : List Path) :
    search fs base dirs engine = (dirs.map (installedProgram base engine)).find? fs.isProgram :=
  if_neg (Nat.not_lt.2 (length_components_le_one h))

theorem searchDirectories_of_not_mem {list : String} (h : ':' ∉ list.toList) :
    searchDirectories list = [⟨list⟩] := by
  rw [searchDirectories, Text.split_of_not_mem h, List.map_singleton, String.ofList_toList]

/-- The first directory of a list stands in front of its first colon. -/
theorem searchDirectories_of_mem {list : String} {front rest : List Char}
    (hlist : list.toList = front ++ ':' :: rest) (h : ':' ∉ front) :
    ∃ dirs, searchDirectories list = ⟨String.ofList front⟩ :: dirs := by
  refine ⟨(Text.split ':' rest).map fun cs => ⟨String.ofList cs⟩, ?_⟩
  rw [searchDirectories, hlist, Text.split_append_of_not_mem h, List.map_cons]

/-! ## The own copies -/

theorem isAbsolute_localPrograms (h : dir.isAbsolute = true) :
    (localPrograms dir).isAbsolute = true :=
  Path.isAbsolute_join (Path.isAbsolute_join h _) _

theorem text_localPrograms_ne : (localPrograms dir).text ≠ "" := by
  intro hempty
  have hmem : 'b' ∈ (localPrograms dir).text.toList := by
    rw [localPrograms, Path.mem_text_child_iff (by decide) (by decide)]
    exact .inr (by decide)
  rw [hempty] at hmem
  cases hmem

theorem colon_mem_localPrograms_iff :
    ':' ∈ (localPrograms dir).text.toList ↔ ':' ∈ dir.text.toList := by
  rw [localPrograms, Path.mem_text_child_iff (by decide) (by decide),
    Path.mem_text_child_iff (by decide) (by decide)]
  simp

/-- Without a colon the directory of a copy is handed on as it is. -/
theorem search_localPrograms (habs : dir.isAbsolute = true) (hcolon : ':' ∉ dir.text.toList)
    (hengine : '/' ∉ engine.toList) :
    search fs root (searchDirectories (localPrograms dir).text) engine =
      if fs.isProgram (localProgram engine dir) then some (localProgram engine dir) else none := by
  rw [searchDirectories_of_not_mem (mt colon_mem_localPrograms_iff.1 hcolon),
    search_eq_find? hengine, List.map_singleton, installedProgram, Path.under,
    if_pos (isAbsolute_localPrograms habs)]
  exact List.find?_singleton

theorem isDirectory_of_isProgram (hfs : fs.Nested) (hengine : '/' ∉ engine.toList)
    (h : fs.isProgram (localProgram engine dir) = true) :
    fs.isDirectory (localPrograms dir) = true :=
  hfs _ engine text_localPrograms_ne hengine (FileSystem.isFile_of_isProgram h)

theorem findSome?_eq_find?_map {place : Path → Path} {dirs : List Path} {f : Path → Option Path}
    (h : ∀ d ∈ dirs, f d = if fs.isProgram (place d) then some (place d) else none) :
    dirs.findSome? f = (dirs.map place).find? fs.isProgram := by
  induction dirs with
  | nil => rfl
  | cons d dirs ih =>
    rw [List.findSome?_cons, List.map_cons, List.find?_cons, h d (.head _)]
    cases fs.isProgram (place d) with
    | true => rfl
    | false => exact ih fun e he => h e (.tail _ he)

/-- Above a root without a colon the own copies are tried one after another. -/
theorem located_locate (habs : root.isAbsolute = true) (hcolon : ':' ∉ root.text.toList)
    (hfs : fs.Nested) (hengine : '/' ∉ engine.toList) :
    Located fs root cwd searchPath engine (locate fs root cwd searchPath engine) := by
  have hown : ∀ dir ∈ root.ancestors,
      (if fs.isDirectory (localPrograms dir) then
        search fs root (searchDirectories (localPrograms dir).text) engine
      else none) =
        if fs.isProgram (localProgram engine dir) then some (localProgram engine dir)
        else none := by
    intro dir hdir
    rw [search_localPrograms (Path.isAbsolute_of_mem_ancestors habs hdir)
      (mt (Path.mem_text_of_mem_ancestors habs (by decide) hdir) hcolon) hengine]
    split
    · rfl
    · next hnodir =>
      exact (if_neg (mt (isDirectory_of_isProgram hfs hengine) hnodir)).symm
  rw [located_iff, locate, findSome?_eq_find?_map hown, search_eq_find? hengine]

end

/-! ## Roots with a colon -/

/-- Two programs in directories: the copy that belongs to a root, and one in another directory. -/
def twoPrograms (root other : Path) : FileSystem :=
  ⟨fun p =>
    if p = localProgram "tsc" root ∨ p = other.child "tsc" then .ok (.file (.ok []) true)
    else .ok .directory⟩

section
variable {root front : Path} {rest : List Char} (habs : root.isAbsolute = true)
  (hroot : root.text.toList = front.text.toList ++ ':' :: rest) (hfront : ':' ∉ front.text.toList)

include hroot in
theorem toList_text_localPrograms :
    ∃ more, (localPrograms root).text.toList = front.text.toList ++ ':' :: more := by
  have hmodules : '/' ∉ "node_modules".toList := by decide
  have hbin : '/' ∉ ".bin".toList := by decide
  obtain ⟨a, ha⟩ := root.exists_text_child hmodules
  obtain ⟨b, hb⟩ := (root.child "node_modules").exists_text_child hbin
  refine ⟨rest ++ a.toList ++ b.toList, ?_⟩
  rw [localPrograms, hb, ha]
  simp [hroot]

include hroot in
theorem toList_text_localProgram :
    ∃ more, (localProgram "tsc" root).text.toList = front.text.toList ++ ':' :: more := by
  have htsc : '/' ∉ "tsc".toList := by decide
  obtain ⟨more, hmore⟩ := toList_text_localPrograms hroot
  obtain ⟨a, ha⟩ := (localPrograms root).exists_text_child htsc
  refine ⟨more ++ a.toList, ?_⟩
  rw [localProgram, ha]
  simp [hmore]

include hfront in
theorem colon_not_mem_child : ':' ∉ (front.child "tsc").text.toList := by
  rw [Path.mem_text_child_iff (by decide) (by decide)]
  rintro (h | h)
  · exact hfront h
  · exact absurd h (by decide)

include habs hroot in
theorem isAbsolute_front : front.isAbsolute = true := by
  rw [Path.isAbsolute, decide_eq_true_eq] at habs ⊢
  rw [hroot] at habs
  cases hc : front.text.toList with
  | nil => simp [hc] at habs
  | cons c cs => simpa [hc] using habs

include habs hroot hfront in
/-- Of the two programs none stands below itself or below the other one: behind their common front
one path goes on with the colon and the other one does not. -/
theorem child_ne_program {dir : Path} {name : String} (hname : '/' ∉ name.toList)
    (hdir : dir = localProgram "tsc" root ∨ dir = front.child "tsc") :
    dir.child name ≠ localProgram "tsc" root ∧ dir.child name ≠ front.child "tsc" := by
  have htsc : Path.IsName "tsc" := by decide
  obtain ⟨more, hown⟩ := toList_text_localProgram hroot
  have hself : ∀ d : Path, (d.child "tsc").child name ≠ d.child "tsc" :=
    fun d => d.child_child_ne htsc hname
  rcases hdir with rfl | rfl
  · refine ⟨hself _, fun heq => colon_not_mem_child hfront ?_⟩
    rw [← heq, Path.mem_text_child_iff hname (by decide), hown]
    simp
  · refine ⟨fun heq => ?_, hself _⟩
    have hother := front.text_child_child htsc hname
    rw [heq, hown] at hother
    rcases front.text_child htsc.1 with ⟨hempty, -⟩ | ⟨before, hbefore, ht⟩ | ht
    · have hrooted := isAbsolute_front habs hroot
      rw [Path.isAbsolute, hempty] at hrooted
      cases hrooted
    · rw [ht, hbefore] at hother
      simp at hother
    · simp [ht] at hother

include habs hroot hfront in
theorem nested_twoPrograms : (twoPrograms root front).Nested := by
  intro dir name hdir hname hfile
  by_cases hprogram : dir = localProgram "tsc" root ∨ dir = front.child "tsc"
  · obtain ⟨hown, hother⟩ := child_ne_program habs hroot hfront hname hprogram
    simp [FileSystem.isFile, twoPrograms, hown, hother] at hfile
  · simp [FileSystem.isDirectory, twoPrograms, hprogram]

include habs hroot hfront in
/-- The other program is taken, though the root has a copy of its own. -/
theorem locate_twoPrograms (cwd : Path) (searchPath : String) :
    locate (twoPrograms root front) root cwd searchPath "tsc" = some (front.child "tsc") := by
  have hcolon : ':' ∈ (localPrograms root).text.toList := by
    rw [colon_mem_localPrograms_iff, hroot]
    simp
  have hdir : (twoPrograms root front).isDirectory (localPrograms root) = true := by
    have hother : localPrograms root ≠ front.child "tsc" := by
      intro heq
      exact colon_not_mem_child hfront (heq ▸ hcolon)
    have hown : localPrograms root ≠ localProgram "tsc" root := by
      have hbin : Path.IsName ".bin" := by decide
      have htsc : '/' ∉ "tsc".toList := by decide
      exact (Path.child_child_ne _ hbin htsc).symm
    simp [FileSystem.isDirectory, twoPrograms, hown, hother]
  have hfirst : ∃ dirs, searchDirectories (localPrograms root).text = front :: dirs := by
    obtain ⟨more, hmore⟩ := toList_text_localPrograms hroot
    obtain ⟨dirs, hdirs⟩ := searchDirectories_of_mem hmore hfront
    rw [String.ofList_toList] at hdirs
    exact ⟨dirs, hdirs⟩
  obtain ⟨dirs, hdirs⟩ := hfirst
  have hplace : installedProgram root "tsc" front = front.child "tsc" := by
    rw [installedProgram, Path.under, if_pos (isAbsolute_front habs hroot)]
  have hprogram : (twoPrograms root front).isProgram (front.child "tsc") = true := by
    simp [FileSystem.isProgram, twoPrograms]
  have hnear : search (twoPrograms root front) root
      (searchDirectories (localPrograms root).text) "tsc" = some (front.child "tsc") := by
    rw [search_eq_find? (by decide), hdirs, List.map_cons, hplace, List.find?_cons_of_pos hprogram]
  rw [locate, Path.ancestors, List.findSome?_cons, if_pos hdir, hnear]
  rfl

end

/-! ## The own engine -/

/-- In every file system the engine of a workspace is the own copy from the nearest directory that
has one, else the first one in the directories of the search path, as long as the root has no colon;
nothing else is ever taken.  For every root with a colon there are files among which another program
is taken, although the root has a copy of its own. -/
theorem own_engine_wins {root : Path} (habs : root.isAbsolute = true) :
    (':' ∉ root.text.toList →
      ∀ (fs : FileSystem) (cwd : Path) (searchPath engine : String),
        fs.Nested → '/' ∉ engine.toList →
          Located fs root cwd searchPath engine (locate fs root cwd searchPath engine) ∧
            ∀ p, locate fs root cwd searchPath engine = some p →
              (∃ dir ∈ root.ancestors, p = localProgram engine dir) ∨
                ∃ dir ∈ searchDirectories searchPath, p = installedProgram cwd engine dir) ∧
    (':' ∈ root.text.toList →
      ∃ fs : FileSystem, fs.Nested ∧ fs.isProgram (localProgram "tsc" root) = true ∧
        ∀ (cwd : Path) (searchPath : String),
          ¬Located fs root cwd searchPath "tsc" (locate fs root cwd searchPath "tsc")) := by
  constructor
  · intro hcolon fs cwd searchPath engine hfs hengine
    have hlocated : Located fs root cwd searchPath engine (locate fs root cwd searchPath engine) :=
      located_locate habs hcolon hfs hengine
    exact ⟨hlocated, fun p hp => (hp ▸ hlocated).mem⟩
  · intro hcolon
    obtain ⟨front, rest, hroot, hfront⟩ := List.eq_append_cons_of_mem hcolon
    have hroot : root.text.toList = (Path.mk (String.ofList front)).text.toList ++ ':' :: rest := by
      rw [String.toList_ofList, hroot]
    have hfront : ':' ∉ (Path.mk (String.ofList front)).text.toList := by
      rwa [String.toList_ofList]
    have hown : (twoPrograms root ⟨String.ofList front⟩).isProgram (localProgram "tsc" root) =
        true := by
      simp [FileSystem.isProgram, twoPrograms]
    refine ⟨_, nested_twoPrograms habs hroot hfront, hown, fun cwd searchPath hlocated => ?_⟩
    rw [locate_twoPrograms habs hroot hfront] at hlocated
    have heq := Option.some.inj (hlocated.eq_of_root hown)
    obtain ⟨more, hmore⟩ := toList_text_localProgram hroot
    apply colon_not_mem_child hfront
    rw [heq, hmore]
    simp

/-- A file system of programs alone, each at a location. -/
def programsAt (ls : List Location) : FileSystem :=
  (ls.foldl (fun m l => m.addFile l [] true) Image.empty).seenFrom []

theorem nested_programsAt (ls : List Location) : (programsAt ls).Nested := Image.nested_seenFrom _ _

/-- A package without the compiler in its own directory gets the one of the workspace around it, and
not the installed one.  A root with a colon may get another program. -/
theorem own_engine_wins_around :
    let fs := programsAt [["ws", "node_modules", ".bin", "tsc"],
      ["ws", "app", "node_modules", ".bin", "eslint"], ["usr", "bin", "tsc"]]
    Path.isAbsolute ⟨"/ws/app"⟩ = true ∧ ':' ∉ "/ws/app".toList ∧ fs.Nested ∧ '/' ∉ "tsc".toList ∧
      Located fs ⟨"/ws/app"⟩ ⟨"/"⟩ "/usr/bin" "tsc" (some ⟨"/ws/node_modules/.bin/tsc"⟩) ∧
      ∃ fs : FileSystem, fs.Nested ∧ fs.isProgram ⟨"/a:b/node_modules/.bin/tsc"⟩ = true ∧
        ¬Located fs ⟨"/a:b"⟩ ⟨"/"⟩ "/usr/bin" "tsc"
          (locate fs ⟨"/a:b"⟩ ⟨"/"⟩ "/usr/bin" "tsc") := by
  intro fs
  have hfs : fs.Nested := nested_programsAt _
  have hfound : locate fs ⟨"/ws/app"⟩ ⟨"/"⟩ "/usr/bin" "tsc" =
      some ⟨"/ws/node_modules/.bin/tsc"⟩ := by
    decide +kernel
  have habs : Path.isAbsolute ⟨"/ws/app"⟩ = true := by decide
  have hcolon : ':' ∉ "/ws/app".toList := by decide
  have htsc : '/' ∉ "tsc".toList := by decide
  have hlocated := ((own_engine_wins habs).1 hcolon fs ⟨"/"⟩ "/usr/bin" "tsc" hfs htsc).1
  rw [hfound] at hlocated
  have habs' : Path.isAbsolute ⟨"/a:b"⟩ = true := by decide
  obtain ⟨fs', hfs', hown, hnot⟩ := (own_engine_wins habs').2 (by decide)
  exact ⟨habs, hcolon, hfs, htsc, hlocated, fs', hfs', hown, hnot _ _⟩

/-- The compiler of a workspace whose root has a colon in its name is not found, and the one that
stands where the root ends at the colon is taken. -/
theorem other_engine_wins :
    ¬ ∀ (fs : FileSystem) (root cwd : Path) (searchPath engine : String),
      root.isAbsolute = true → fs.Nested → '/' ∉ engine.toList →
        Located fs root cwd searchPath engine (locate fs root cwd searchPath engine) := by
  intro h
  let fs := programsAt [["a:b", "node_modules", ".bin", "tsc"], ["a", "tsc"]]
  have hlocated := h fs ⟨"/a:b"⟩ ⟨"/"⟩ "/none" "tsc" (by decide) (nested_programsAt _) (by decide)
  have hfound : locate fs ⟨"/a:b"⟩ ⟨"/"⟩ "/none" "tsc" = some ⟨"/a/tsc"⟩ := by decide +kernel
  have hown : fs.isProgram (localProgram "tsc" ⟨"/a:b"⟩) = true := by decide +kernel
  rw [hfound] at hlocated
  exact absurd (hlocated.eq_of_root hown) (by decide)

end Engine

end ProblemBoard
