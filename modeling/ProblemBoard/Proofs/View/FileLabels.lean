import ProblemBoard.Proofs.Path.Components
import ProblemBoard.Proofs.View.Arrangement

/-!
# Labels of files

A label says which file it stands for: a file of the workspace goes by what leads to it from the
root, and any other one by its whole path, which is told by its first separator.  So a label is
undone by joining it to the root, `Path.same_join_label`, and no two absolute paths share one.
`View.file_labels_identify` says what that means for the groups of files.
-/

namespace ProblemBoard

/-- The text of a component between separators. -/
def Component.shown : Component → String
  | name s => s
  | up => ".."
  | here => "."
  | root => "/"

namespace Path

/-! ## Inside and outside -/

/-- A path is under a directory if it starts with all the components of the directory. -/
def IsUnder (dir p : Path) : Prop := dir.components <+: p.components

instance (dir p : Path) : Decidable (dir.IsUnder p) :=
  inferInstanceAs (Decidable (dir.components <+: p.components))

section
variable {root p q : Path}

/-- Inside the workspace a path is shown by what leads to it from the root. -/
theorem label_of_isUnder (hroot : root.isAbsolute = true) (h : root.IsUnder p) :
    ∃ cs, (∀ c ∈ cs, c.IsEntry) ∧ p.components = root.components ++ cs ∧
      root.label p = labelOf cs := by
  obtain ⟨cs, hcs⟩ := h
  have hp : p.isAbsolute = true := by
    apply isAbsolute_of_root_mem
    rw [← hcs, components_eq root, lead_of_isAbsolute hroot]
    exact .head _
  have hentries : p.entries = root.entries ++ cs := by
    rw [components_eq root, components_eq p, lead_of_isAbsolute hroot, lead_of_isAbsolute hp] at hcs
    exact (List.cons.inj hcs).2.symm
  refine ⟨cs, fun c hc => ?_, hcs.symm, ?_⟩
  · apply isEntry_of_mem_entries (p := p)
    rw [hentries]
    exact List.mem_append_right _ hc
  · rw [label, below?, if_pos (List.isPrefixOf_iff_prefix.2 ⟨cs, hcs⟩), ← hcs, List.drop_left]
    rfl

/-- Outside the workspace an absolute path is shown from the root directory on.  Only the empty path
is above an absolute one without being absolute. -/
theorem label_of_not_isUnder (hp : p.isAbsolute = true)
    (h : root.isAbsolute = true → ¬root.IsUnder p) :
    root.label p = "/" ++ labelOf p.entries := by
  have hcomponents : p.components = .root :: p.entries := by
    rw [components_eq, lead_of_isAbsolute hp]
    rfl
  have hbelow : (root.below? p).getD p.components = p.components := by
    unfold below?
    split
    · next hprefix =>
      rw [List.isPrefixOf_iff_prefix] at hprefix
      have hroot : root.components = [] := by
        cases hc : root.components with
        | nil => rfl
        | cons c cs =>
          rw [hc, hcomponents, List.cons_prefix_cons] at hprefix
          have ha : root.isAbsolute = true := by
            apply isAbsolute_of_root_mem
            rw [hc, hprefix.1]
            exact .head _
          refine absurd ?_ (h ha)
          rw [IsUnder, hc, hcomponents, List.cons_prefix_cons]
          exact hprefix
      rw [hroot]
      rfl
    · rfl
  rw [label, hbelow, hcomponents, labelOf_rooted fun c hc => isEntry_of_mem_entries hc]

/-! ## Labels undone -/

/-- A label that is joined to the root is the path again. -/
theorem same_join_label (root : Path) (hp : p.isAbsolute = true) :
    (root.join ⟨root.label p⟩).same p = true := by
  rw [same_iff]
  by_cases h : root.isAbsolute = true ∧ root.IsUnder p
  · obtain ⟨cs, hcs, hcomponents, hlabel⟩ := label_of_isUnder h.1 h.2
    have hrel := isAbsolute_labelOf hcs
    rw [hlabel, components_join hrel (.inr (lead_labelOf hcs)), entries_of_relative hrel,
      entries_labelOf hcs, hcomponents]
  · have hentries : ∀ c ∈ p.entries, c.IsEntry := fun c hc => isEntry_of_mem_entries hc
    have hlabel : root.label p = "/" ++ labelOf p.entries :=
      label_of_not_isUnder hp fun ha hu => h ⟨ha, hu⟩
    have habs : isAbsolute ⟨root.label p⟩ = true := by
      rw [hlabel]
      simp [isAbsolute]
    rw [join, if_pos habs, hlabel, components_rooted, entries_labelOf hentries, components_eq p,
      lead_of_isAbsolute hp]
    rfl

theorem label_eq_iff (root : Path) (hp : p.isAbsolute = true) (hq : q.isAbsolute = true) :
    root.label p = root.label q ↔ p.same q = true := by
  constructor
  · intro h
    have hq := same_join_label root hq
    rw [← h] at hq
    exact same_trans (same_symm (same_join_label root hp)) hq
  · exact label_eq_of_same

/-- The label of an absolute path starts with a separator if the path is outside the workspace. -/
theorem head?_label_iff (hroot : root.isAbsolute = true) (hp : p.isAbsolute = true) :
    (root.label p).toList.head? = some '/' ↔ ¬root.IsUnder p := by
  by_cases h : root.IsUnder p
  · obtain ⟨cs, hcs, -, hlabel⟩ := label_of_isUnder hroot h
    rw [hlabel]
    refine iff_of_false ?_ (not_not_intro h)
    exact of_decide_eq_false (isAbsolute_labelOf hcs)
  · rw [label_of_not_isUnder hp fun _ => h]
    refine iff_of_true ?_ h
    simp

theorem shown_of_isEntry {c : Component} (h : c.IsEntry) : c.shown.toList = c.piece := by
  cases c with
  | name s | up => rfl
  | root | here => cases h

/-- What is joined to a root is shown by its components. -/
theorem label_join_eq (root : Path) (hq : q.isAbsolute = false)
    (hhere : q.components.head? ≠ some .here) :
    root.label (root.join q) = "/".intercalate (q.components.map Component.shown) := by
  have hlead := lead_eq_nil hq hhere
  have hentries : ∀ c ∈ q.entries, c.IsEntry := fun c hc => isEntry_of_mem_entries hc
  have hshown : (q.entries.map Component.shown).map String.toList =
      q.entries.map Component.piece := by
    rw [List.map_map]
    exact List.map_congr_left fun c hc => shown_of_isEntry (hentries c hc)
  rw [label_join hq (.inr hlead), components_eq q, hlead, List.nil_append, ← String.toList_inj,
    toList_labelOf hentries, String.toList_intercalate, hshown]
  rfl

end

end Path

/-! ## Groups of files -/

/-- Of the file groups no two for absolute paths go by one label. -/
theorem Grouping.FileGroups.labels {root : Path} {ps : List Problem} {nodes : List Node}
    {Inside : List Problem → List Node → Prop} (h : FileGroups root Inside ps nodes) :
    ∃ (files : List Path) (children : Path → List Node),
      nodes = files.map (fun f => .fileGroup (root.label f) f (children f)) ∧
        (∀ p ∈ ps, ∃ f ∈ files, f.same p.file = true) ∧
        (∀ f ∈ files, ∃ p ∈ ps, p.file = f) ∧
        files.Pairwise fun f g =>
          f.isAbsolute = true → g.isAbsolute = true → root.label f ≠ root.label g := by
  obtain ⟨files, children, -, hdistinct, hall, hfirst, hnodes, -⟩ := h
  refine ⟨files, children, hnodes, hall, ?_, hdistinct.imp ?_⟩
  · intro f hf
    obtain ⟨p, hp, hfile⟩ := Option.map_eq_some_iff.1 (hfirst f hf)
    exact ⟨p, List.mem_of_find?_eq_some hp, hfile⟩
  · intro f g hne hf hg hlabel
    rw [Path.label_eq_iff root hf hg] at hlabel
    exact Bool.eq_false_iff.1 hne hlabel

namespace View

/-- The label of an absolute path is undone by joining it to the root.  Where the root is absolute,
the label starts with a separator if the path is outside the workspace, and only then.  Two absolute
paths have one label if they are the same path, so in the modes with files all groups of absolute
paths go by different labels.  A relative path that does not start with `.` is shown, once it is
joined to the root, by its own components. -/
theorem file_labels_identify (root : Path) :
    (∀ p : Path, p.isAbsolute = true → (root.join ⟨root.label p⟩).same p = true) ∧
      (root.isAbsolute = true → ∀ p : Path, p.isAbsolute = true →
        ((root.label p).toList.head? = some '/' ↔ ¬root.IsUnder p)) ∧
      (∀ p q : Path, p.isAbsolute = true → q.isAbsolute = true →
        (root.label p = root.label q ↔ p.same q = true)) ∧
      (∀ (ps : List Problem) (mode : GroupMode), mode ≠ .rule →
        ∃ (files : List Path) (children : Path → List Node),
          (arrange ps mode root).roots =
              files.map (fun f => .fileGroup (root.label f) f (children f)) ∧
            (∀ p ∈ ps, ∃ f ∈ files, f.same p.file = true) ∧
            (∀ f ∈ files, ∃ p ∈ ps, p.file = f) ∧
            files.Pairwise fun f g =>
              f.isAbsolute = true → g.isAbsolute = true → root.label f ≠ root.label g) ∧
      ∀ q : Path, q.isAbsolute = false → q.components.head? ≠ some .here →
        root.label (root.join q) = "/".intercalate (q.components.map Component.shown) := by
  refine ⟨?_, ?_, ?_, ?_, ?_⟩
  · intro p hp
    exact Path.same_join_label root hp
  · intro hroot p hp
    exact Path.head?_label_iff hroot hp
  · intro p q hp hq
    exact Path.label_eq_iff root hp hq
  · intro ps mode hmode
    have harranged := arranged_arrange ps mode root
    cases mode with
    | file => exact Grouping.FileGroups.labels harranged
    | rule => exact absurd rfl hmode
    | both => exact Grouping.FileGroups.labels harranged
  · intro q hq hhere
    exact Path.label_join_eq root hq hhere

/-- A file of the workspace behind a `..`, one outside it whose path ends alike, and a relative
path, none of them in its plain spelling.  The two files have groups with different labels. -/
theorem file_labels_identify_dotted :
    let root : Path := ⟨"/ws/."⟩
    let p : Path := ⟨"/ws//src/./../a.ts/"⟩
    let q : Path := ⟨"/src/../a.ts"⟩
    let rel : Path := ⟨"../lib//b.ts"⟩
    let ps : List Problem := [q, p].map fun f => ⟨f, .point ⟨0, 0⟩, .error, "", "tsc", none⟩
    root.isAbsolute = true ∧ p.isAbsolute = true ∧ q.isAbsolute = true ∧
      root.label p = "src/../a.ts" ∧ root.label q = "/src/../a.ts" ∧
      (root.join ⟨root.label p⟩).same p = true ∧ (root.join ⟨root.label q⟩).same q = true ∧
      root.IsUnder p ∧ ¬root.IsUnder q ∧ ¬p.same q = true ∧ GroupMode.both ≠ .rule ∧
      (∃ (files : List Path) (children : Path → List Node),
        (arrange ps .both root).roots =
            files.map (fun f => .fileGroup (root.label f) f (children f)) ∧
          p ∈ files ∧ q ∈ files ∧
          files.Pairwise fun f g =>
            f.isAbsolute = true → g.isAbsolute = true → root.label f ≠ root.label g) ∧
      rel.isAbsolute = false ∧ rel.components.head? ≠ some .here ∧
      root.label (root.join rel) = "../lib/b.ts" := by
  intro root p q rel ps
  have hroot : root.isAbsolute = true := by decide
  have hp : p.isAbsolute = true := by decide
  have hq : q.isAbsolute = true := by decide
  have hlp : root.label p = "src/../a.ts" := by decide
  have hlq : root.label q = "/src/../a.ts" := by decide
  obtain ⟨hundone, hinside, hsame, hgroups, hjoin⟩ := file_labels_identify root
  have hdiffer : ¬p.same q = true := by
    rw [← hsame p q hp hq, hlp, hlq]
    decide
  have houtside : ¬root.IsUnder q := by
    rw [← hinside hroot q hq, hlq]
    decide
  obtain ⟨files, children, hroots, hall, hfrom, hlabels⟩ := hgroups ps .both (by decide)
  have hfiles : ∀ f ∈ files, f = q ∨ f = p := by
    intro f hf
    obtain ⟨r, hr, rfl⟩ := hfrom f hf
    rcases List.mem_pair.1 hr with rfl | rfl
    · exact .inl rfl
    · exact .inr rfl
  have hpfiles : p ∈ files := by
    obtain ⟨f, hf, hfp⟩ := hall ⟨p, .point ⟨0, 0⟩, .error, "", "tsc", none⟩ (.tail _ (.head _))
    rcases hfiles f hf with rfl | rfl
    · exact absurd (Path.same_symm hfp) hdiffer
    · exact hf
  have hqfiles : q ∈ files := by
    obtain ⟨f, hf, hfq⟩ := hall ⟨q, .point ⟨0, 0⟩, .error, "", "tsc", none⟩ (.head _)
    rcases hfiles f hf with rfl | rfl
    · exact hf
    · exact absurd hfq hdiffer
  have hrel : rel.isAbsolute = false := by decide
  have hhere : rel.components.head? ≠ some .here := by decide
  exact ⟨hroot, hp, hq, hlp, hlq, hundone p hp, hundone q hq, by decide, houtside, hdiffer,
    by decide, ⟨files, children, hroots, hpfiles, hqfiles, hlabels⟩, hrel, hhere,
    (hjoin rel hrel hhere).trans (by decide)⟩

end View

end ProblemBoard
