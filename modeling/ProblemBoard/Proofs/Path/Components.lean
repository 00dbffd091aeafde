import Mathlib.Data.List.Basic
import ProblemBoard.Path.Label
import ProblemBoard.Path.Order
import ProblemBoard.Proofs.Path.Entry

/-!
# Components of paths that are put together

A path starts at the root directory, at `.` or at neither, and what follows are its *entries*: names
and `..`.  Entries that are written with separators are read again, whatever they are.  A path that
is joined to a base has the components of the base and then its own entries, `components_join`; and
what a label shows of a path below the base are just these, `label_join`.
-/

namespace ProblemBoard

/-! ## Entries -/

namespace Component

/-- The piece of a path that an entry is written as. -/
def piece : Component → List Char
  | name s => s.toList
  | up => ['.', '.']
  | root => []
  | here => []

/-- Whether a component leads on from a directory. -/
def IsEntry : Component → Prop
  | name s => Path.IsName s
  | up => True
  | root => False
  | here => False

theorem ofPiece_piece {c : Component} (h : c.IsEntry) : Path.ofPiece c.piece = some c := by
  cases c with
  | name s => exact Path.ofPiece_of_isName h
  | up => rfl
  | root | here => cases h

theorem labelText_of_isEntry {c : Component} (h : c.IsEntry) :
    c.labelText = some (String.ofList c.piece) := by
  cases c with
  | name s => exact congrArg some String.ofList_toList.symm
  | up => rfl
  | root | here => cases h

theorem IsEntry.separator_not_mem {c : Component} (h : c.IsEntry) : '/' ∉ c.piece := by
  cases c with
  | name s => exact h.1
  | up => decide
  | root | here => cases h

theorem IsEntry.not_isVoid {c : Component} (h : c.IsEntry) : Path.isVoid c.piece = false := by
  cases c with
  | name s => exact h.2.1
  | up => rfl
  | root | here => cases h

theorem isEntry_of_ofPiece {piece : List Char} {c : Component} (hsep : '/' ∉ piece)
    (h : Path.ofPiece piece = some c) : c.IsEntry := by
  unfold Path.ofPiece at h
  split at h
  · cases h
  next hvoid =>
  split at h
  · obtain rfl := Option.some.inj h
    trivial
  · next hup =>
    obtain rfl := Option.some.inj h
    refine ⟨?_, ?_, ?_⟩
    · rwa [String.toList_ofList]
    · rw [String.toList_ofList]
      exact Bool.eq_false_iff.2 hvoid
    · rw [String.toList_ofList]
      simpa using hup

end Component

namespace Path

/-- What a path starts with in front of its entries. -/
def lead (p : Path) : List Component :=
  if p.isAbsolute then [.root] else if p.bodyPieces.head? = some ['.'] then [.here] else []

/-- The components that lead on from one directory to the next. -/
def entries (p : Path) : List Component := p.bodyPieces.filterMap ofPiece

theorem components_eq (p : Path) : p.components = p.lead ++ p.entries := by
  unfold components lead
  split
  · rfl
  · split
    · next h =>
      obtain ⟨rest, hrest⟩ := List.head?_eq_some_iff.1 h
      rw [entries, hrest]
      rfl
    · rfl

theorem bodyPieces_ne_nil (p : Path) : p.bodyPieces ≠ [] := by
  unfold bodyPieces
  split
  · exact Text.split_ne_nil _ _
  · exact Text.split_ne_nil _ _

theorem isEntry_of_mem_entries {p : Path} {c : Component} (h : c ∈ p.entries) : c.IsEntry := by
  obtain ⟨piece, hpiece, hc⟩ := List.mem_filterMap.1 h
  refine Component.isEntry_of_ofPiece ?_ hc
  unfold bodyPieces at hpiece
  split at hpiece
  · exact Text.not_mem_of_mem_split hpiece
  · exact Text.not_mem_of_mem_split hpiece

theorem lead_of_isAbsolute {p : Path} (h : p.isAbsolute = true) : p.lead = [.root] := if_pos h

/-- Only an absolute path has the root directory among its components. -/
theorem isAbsolute_of_root_mem {p : Path} (h : .root ∈ p.components) : p.isAbsolute = true := by
  rw [components_eq, List.mem_append] at h
  rcases h with h | h
  · unfold lead at h
    split at h
    · next ha => exact ha
    · split at h <;> simp at h
  · exact (isEntry_of_mem_entries h).elim

theorem isAbsolute_of_same {p q : Path} (h : p.same q = true) (hq : q.isAbsolute = true) :
    p.isAbsolute = true := by
  apply isAbsolute_of_root_mem
  rw [same_iff.1 h, components_eq, lead_of_isAbsolute hq]
  exact .head _

/-- A relative path starts with `.`, or all its components are entries. -/
theorem lead_cases {p : Path} (h : p.isAbsolute = false) : p.lead = [.here] ∨ p.lead = [] := by
  unfold lead
  rw [if_neg (Bool.eq_false_iff.1 h)]
  split
  · exact .inl rfl
  · exact .inr rfl

theorem lead_eq_nil {p : Path} (h : p.isAbsolute = false)
    (hhere : p.components.head? ≠ some .here) : p.lead = [] := by
  refine (lead_cases h).resolve_left fun hlead => hhere ?_
  rw [components_eq, hlead]
  rfl

theorem entries_of_relative {p : Path} (h : p.isAbsolute = false) :
    p.entries = (pieces p.text.toList).filterMap ofPiece := by
  rw [entries, bodyPieces, if_neg (Bool.eq_false_iff.1 h)]

/-! ## Joined paths -/

/-- What stands behind the root directory are entries. -/
theorem components_rooted (s : String) :
    components ⟨"/" ++ s⟩ = .root :: (pieces s.toList).filterMap ofPiece := by
  have ha : isAbsolute ⟨"/" ++ s⟩ = true := by simp [isAbsolute]
  rw [components, if_pos ha, bodyPieces, if_pos ha]
  simp

/-- A separator cuts a path in two, unless it is the one at its start. -/
theorem components_append {a : String} (ha : a ≠ "") (b : String) :
    components ⟨a ++ "/" ++ b⟩ = components ⟨a⟩ ++ (pieces b.toList).filterMap ofPiece := by
  obtain ⟨c, cs, hcs⟩ : ∃ c cs, a.toList = c :: cs := List.exists_cons_of_ne_nil (by simpa using ha)
  have htext : (a ++ "/" ++ b).toList = (c :: cs) ++ '/' :: b.toList := by
    simp [hcs]
  have habs : isAbsolute ⟨a ++ "/" ++ b⟩ = isAbsolute ⟨a⟩ := by
    simp [isAbsolute, hcs]
  have hbody : bodyPieces ⟨a ++ "/" ++ b⟩ = bodyPieces ⟨a⟩ ++ pieces b.toList := by
    unfold bodyPieces
    rw [habs, htext, hcs]
    split
    · exact Text.split_append '/' cs b.toList
    · exact Text.split_append '/' (c :: cs) b.toList
  have hhead : (bodyPieces ⟨a ++ "/" ++ b⟩).head? = (bodyPieces ⟨a⟩).head? := by
    obtain ⟨piece, rest, hpieces⟩ := List.exists_cons_of_ne_nil (bodyPieces_ne_nil ⟨a⟩)
    rw [hbody, hpieces]
    rfl
  rw [components_eq, components_eq, entries, entries, hbody, List.filterMap_append,
    ← List.append_assoc, lead, lead, habs, hhead]

/-- A path that is joined to a base has the components of the base, and then its own entries. -/
theorem components_join {base rel : Path} (hrel : rel.isAbsolute = false)
    (h : base.text ≠ "" ∨ rel.lead = []) :
    (base.join rel).components = base.components ++ rel.entries := by
  by_cases hbase : base.text = ""
  · rw [join_of_empty hbase, components_eq rel, h.resolve_left (absurd hbase),
      show base = ⟨""⟩ from congrArg Path.mk hbase]
    rfl
  · unfold join
    rw [if_neg (by simp [hrel]), entries_of_relative hrel]
    split
    · next hend =>
      rw [Bool.or_eq_true] at hend
      have hslash := hend.resolve_left (by simp [hbase])
      obtain ⟨front, hfront⟩ := List.getLast?_eq_some_iff.1 (of_decide_eq_true hslash)
      have htext : base.text = String.ofList front ++ "/" :=
        String.toList_inj.1 (by simp [hfront])
      rw [show base = ⟨String.ofList front ++ "/"⟩ from congrArg Path.mk htext]
      cases front with
      | nil => exact components_rooted rel.text
      | cons c cs =>
        have hne : String.ofList (c :: cs) ≠ "" := by simp
        have hbase := components_append hne ""
        rw [String.append_empty] at hbase
        rw [components_append hne, hbase]
        simp [pieces, Text.split, ofPiece, isVoid]
    · exact components_append hbase rel.text

/-- The path of an entry of a directory has the components of the directory and then the name. -/
theorem components_child (dir : Path) {name : String} (h : IsName name) :
    (dir.child name).components = dir.components ++ [.name name] := by
  have hrel : isAbsolute ⟨name⟩ = false := isAbsolute_of_not_mem h.1
  have hpieces : pieces name.toList = [name.toList] := Text.split_of_not_mem h.1
  have hentries : entries ⟨name⟩ = [.name name] := by
    rw [entries_of_relative hrel, hpieces, List.filterMap_cons, ofPiece_of_isName h]
    rfl
  have hlead : lead ⟨name⟩ = [] := by
    rw [lead, bodyPieces, if_neg (Bool.eq_false_iff.1 hrel), if_neg (Bool.eq_false_iff.1 hrel),
      hpieces]
    refine if_neg fun hdot => ?_
    have hvoid := h.2.1
    rw [Option.some.inj hdot] at hvoid
    cases hvoid
  rw [child, components_join hrel (.inr hlead), hentries]

/-! ## Written entries -/

section
variable {cs : List Component} (h : ∀ c ∈ cs, c.IsEntry)
include h

theorem head?_ne_root : cs.head? ≠ some .root := fun hroot => h _ (List.mem_of_head? hroot)

theorem toList_labelOf : (labelOf cs).toList = ['/'].intercalate (cs.map Component.piece) := by
  have htexts : cs.filterMap Component.labelText = cs.map (String.ofList ∘ Component.piece) :=
    (List.filterMap_congr fun c hc => Component.labelText_of_isEntry (h c hc)).trans
      (congrFun List.filterMap_eq_map cs)
  have hchars : String.toList ∘ String.ofList ∘ Component.piece = Component.piece :=
    funext fun _ => String.toList_ofList
  rw [labelOf, if_neg (head?_ne_root h), String.empty_append, String.toList_intercalate, htexts,
    List.map_map, hchars]
  rfl

theorem pieces_labelOf (hne : cs ≠ []) : pieces (labelOf cs).toList = cs.map Component.piece := by
  rw [toList_labelOf h]
  refine Text.split_intercalate (by simpa using hne) fun p hp => ?_
  obtain ⟨c, hc, rfl⟩ := List.mem_map.1 hp
  exact (h c hc).separator_not_mem

/-- Entries are read as they were written. -/
theorem entries_labelOf : (pieces (labelOf cs).toList).filterMap ofPiece = cs := by
  by_cases hne : cs = []
  · rw [hne]
    rfl
  · rw [pieces_labelOf h hne, List.filterMap_map]
    exact (List.filterMap_congr fun c hc => Component.ofPiece_piece (h c hc)).trans
      List.filterMap_some

/-- What is written of entries does not start with a separator. -/
theorem isAbsolute_labelOf : isAbsolute ⟨labelOf cs⟩ = false := by
  cases cs with
  | nil => rfl
  | cons c cs =>
    apply Bool.eq_false_iff.2
    intro ha
    obtain ⟨rest, hrest⟩ := List.head?_eq_some_iff.1 (of_decide_eq_true ha)
    have hpieces := pieces_labelOf h (List.cons_ne_nil c cs)
    rw [hrest, List.map_cons] at hpieces
    have hvoid := (h c (.head _)).not_isVoid
    rw [← (List.cons.inj hpieces).1] at hvoid
    cases hvoid

theorem lead_labelOf : lead ⟨labelOf cs⟩ = [] := by
  have ha := Bool.eq_false_iff.1 (isAbsolute_labelOf h)
  have hdot : (bodyPieces ⟨labelOf cs⟩).head? ≠ some ['.'] := by
    rw [bodyPieces, if_neg ha]
    cases cs with
    | nil => decide
    | cons c cs =>
      rw [pieces_labelOf h (List.cons_ne_nil c cs)]
      intro hhead
      have hvoid := (h c (.head _)).not_isVoid
      rw [Option.some.inj hhead] at hvoid
      cases hvoid
  rw [lead, if_neg ha, if_neg hdot]

theorem labelOf_rooted : labelOf (.root :: cs) = "/" ++ labelOf cs := by
  rw [labelOf, labelOf, if_neg (head?_ne_root h), String.empty_append]
  rfl

end

/-! ## Other spellings -/

theorem label_eq_of_same {root p q : Path} (h : p.same q = true) : root.label p = root.label q := by
  rw [label, label, below?, below?, same_iff.1 h]

/-! ## Labels of joined paths -/

/-- What is joined to a base is shown by its own entries. -/
theorem label_join {base rel : Path} (hrel : rel.isAbsolute = false)
    (h : base.text ≠ "" ∨ rel.lead = []) : base.label (base.join rel) = labelOf rel.entries := by
  have hprefix : base.components.isPrefixOf (base.join rel).components = true := by
    rw [components_join hrel h, List.isPrefixOf_iff_prefix]
    exact List.prefix_append _ _
  rw [label, below?, if_pos hprefix, components_join hrel h, List.drop_left]
  rfl

end Path

end ProblemBoard
