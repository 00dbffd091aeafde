import ProblemBoard.Proofs.Path.Components
import ProblemBoard.Proofs.Text.Lines
import ProblemBoard.Proofs.View.Arrangement
import ProblemBoard.Proofs.View.Rendering

/-!
# Lines of a tree

The text of a tree is meant to have one line for each node.  A line is made of numbers and words of
its own, of the first line of a message, and of a text that is shown as it came: the label of a
group or the origin of a problem, the `caption` of the node.  So the chunk of a node has one more
line than there are line feeds in its caption, `length_lines_chunkOf`, and where no caption holds
one, the lines are those of the nodes in pre-order.  `View.one_line_for_each_node_iff` says of which
problems this is so: of those whose source, code and file name are each on one line.
-/

namespace ProblemBoard

/-! ## Captions -/

/-- What the line of a node shows as it came: the label of a group, the origin of a problem. -/
def Node.caption : Node → String
  | .fileGroup label _ _ => label
  | .ruleGroup label _ => label
  | .leaf p _ => p.origin

theorem Node.mem_preorder_iff {m n : Node} :
    n ∈ m.preorder ↔ n = m ∨ n ∈ preorderOf m.children := by
  cases m with
  | fileGroup | ruleGroup => exact List.mem_cons
  | leaf p address => simp [Node.preorder, Node.children, preorderOf]

theorem mem_preorderOf_iff {nodes : List Node} {n : Node} :
    n ∈ preorderOf nodes ↔ ∃ m ∈ nodes, n ∈ m.preorder := by
  induction nodes with
  | nil => simp [preorderOf]
  | cons m nodes ih => rw [preorderOf, List.mem_append, ih, List.exists_mem_cons_iff]

/-- No caption in a tree holds a line feed. -/
def Unbroken (nodes : List Node) : Prop := ∀ n ∈ preorderOf nodes, '\n' ∉ n.caption.toList

theorem unbroken_iff {nodes : List Node} :
    Unbroken nodes ↔ ∀ m ∈ nodes, '\n' ∉ m.caption.toList ∧ Unbroken m.children := by
  constructor
  · intro h m hm
    constructor
    · exact h m (mem_preorderOf_iff.2 ⟨m, hm, Node.mem_preorder_iff.2 (.inl rfl)⟩)
    · intro n hn
      exact h n (mem_preorderOf_iff.2 ⟨m, hm, Node.mem_preorder_iff.2 (.inr hn)⟩)
  · intro h n hn
    obtain ⟨m, hm, hmn⟩ := mem_preorderOf_iff.1 hn
    rcases Node.mem_preorder_iff.1 hmn with rfl | hbelow
    · exact (h n hm).1
    · exact (h m hm).2 n hbelow

/-! ## Captions of problems -/

namespace Problem

/-- The label of a rule shows no more of a problem than its origin does. -/
theorem feed_not_mem_ruleLabel {p : Problem} (h : '\n' ∉ p.origin.toList) :
    '\n' ∉ p.ruleLabel.toList := by
  have hunknown : '\n' ∉ unknownSource.toList := by decide
  have hsource : '\n' ∉ p.source.toList := by
    intro hmem
    apply h
    unfold origin
    cases p.code with
    | none => exact hmem
    | some code => simp [hmem]
  have heffective : '\n' ∉ p.effectiveSource.toList := by
    unfold effectiveSource
    split
    · exact hunknown
    · exact hsource
  unfold ruleLabel
  split
  · next code hcode =>
    have hc : p.code = some code := (Option.filter_eq_some_iff.1 hcode).1
    have hmem : '\n' ∉ code.toList := by
      intro hmem
      apply h
      simp [origin, hc, hmem]
    simp [heffective, hmem]
  · exact heffective

/-- What a tree in a mode shows of a problem as it came is on one line: what says it, and the label
of its file where there are groups of files. -/
def OneLine (mode : GroupMode) (root : Path) (p : Problem) : Prop :=
  '\n' ∉ p.origin.toList ∧ (mode ≠ .rule → '\n' ∉ (root.label p.file).toList)

instance (mode : GroupMode) (root : Path) (p : Problem) : Decidable (p.OneLine mode root) :=
  inferInstanceAs (Decidable (_ ∧ _))

end Problem

namespace Grouping

theorem Leaves.unbroken_iff {ps : List Problem} {nodes : List Node} (h : Leaves ps nodes) :
    Unbroken nodes ↔ ∀ p ∈ ps, '\n' ∉ p.origin.toList := by
  rw [h, ProblemBoard.unbroken_iff, List.forall_mem_map]
  refine forall₂_congr fun p _ => and_iff_left ?_
  exact fun n hn => absurd hn List.not_mem_nil

theorem RuleGroups.unbroken_iff {ps : List Problem} {nodes : List Node} (h : RuleGroups ps nodes) :
    Unbroken nodes ↔ ∀ p ∈ ps, '\n' ∉ p.origin.toList := by
  obtain ⟨labels, -, hlabels, rfl⟩ := h
  rw [ProblemBoard.unbroken_iff, List.forall_mem_map]
  constructor
  · intro h p hp
    have hleaves := (h p.ruleLabel ((hlabels _).2 ⟨p, hp, rfl⟩)).2
    exact (Leaves.unbroken_iff rfl).1 hleaves p (List.mem_filter.2 ⟨hp, decide_eq_true rfl⟩)
  · intro h l hl
    obtain ⟨p, hp, rfl⟩ := (hlabels l).1 hl
    refine ⟨Problem.feed_not_mem_ruleLabel (h p hp), (Leaves.unbroken_iff rfl).2 ?_⟩
    exact fun q hq => h q (List.mem_filter.1 hq).1

theorem FileGroups.unbroken_iff {root : Path} {Inside : List Problem → List Node → Prop}
    {ps : List Problem} {nodes : List Node} (h : FileGroups root Inside ps nodes)
    (hinside : ∀ qs below, Inside qs below →
      (Unbroken below ↔ ∀ p ∈ qs, '\n' ∉ p.origin.toList)) :
    Unbroken nodes ↔
      ∀ p ∈ ps, '\n' ∉ p.origin.toList ∧ '\n' ∉ (root.label p.file).toList := by
  obtain ⟨files, children, -, -, hfiles, hfirst, rfl, hchildren⟩ := h
  rw [ProblemBoard.unbroken_iff, List.forall_mem_map]
  constructor
  · intro h p hp
    obtain ⟨f, hf, hsame⟩ := hfiles p hp
    constructor
    · have hbelow := (hinside _ _ (hchildren f hf)).1 (h f hf).2
      exact hbelow p (List.mem_filter.2 ⟨hp, hsame⟩)
    · rw [← Path.label_eq_of_same hsame]
      exact (h f hf).1
  · intro h f hf
    obtain ⟨p, hfind, rfl⟩ := Option.map_eq_some_iff.1 (hfirst f hf)
    refine ⟨(h p (List.mem_of_find?_eq_some hfind)).2, (hinside _ _ (hchildren _ hf)).2 ?_⟩
    exact fun q hq => (h q (List.mem_filter.1 hq).1).1

end Grouping

namespace View

open Grouping

/-- The tree of problems is unbroken if each of them is on one line. -/
theorem unbroken_arrange (ps : List Problem) (mode : GroupMode) (root : Path) :
    Unbroken (arrange ps mode root).roots ↔ ∀ p ∈ ps, p.OneLine mode root := by
  have h := arranged_arrange ps mode root
  cases mode with
  | file => simpa [Problem.OneLine] using h.unbroken_iff fun _ _ h => h.unbroken_iff
  | rule => simpa [Problem.OneLine] using h.unbroken_iff
  | both => simpa [Problem.OneLine] using h.unbroken_iff fun _ _ h => h.unbroken_iff

/-! ## Lines of chunks -/

/-- The line of a node at a depth, behind `before` leaves. -/
def lineOf (selected : Option Nat) (depth before : Nat) : Node → String
  | .leaf p _ => (if selected = some before then ">" else " ") ++ indent depth ++ leafText p.place p
  | n => " " ++ indent depth ++ n.caption ++ " (" ++ toString n.leafCount ++ ")"

section
variable (selected : Option Nat) (depth before : Nat) (n : Node)

theorem chunkOf_eq : chunkOf selected depth before n = lineOf selected depth before n ++ "\n" := by
  have hend : ")\n" = ")" ++ "\n" := rfl
  cases n with
  | fileGroup | ruleGroup =>
    simp only [chunkOf, lineOf, groupChunk, Node.caption, hend, String.append_assoc]
  | leaf p address => simp [chunkOf, lineOf, leafChunk, leafChunkAt]

theorem feed_not_mem_indent : '\n' ∉ (indent depth).toList := by
  simp [indent]

theorem feed_not_mem_toDigits (k : Nat) : '\n' ∉ Nat.toDigits 10 k := by
  intro h
  exact absurd (Nat.isDigit_of_mem_toDigits (by decide) (by decide) h) (by decide)

theorem feed_not_mem_label (s : Severity) : '\n' ∉ s.label.toList := by
  cases s <;> decide

/-- Only the caption of a node can break its line. -/
theorem count_lineOf :
    (lineOf selected depth before n).toList.count '\n' = n.caption.toList.count '\n' := by
  have hindent := List.count_eq_zero.2 (feed_not_mem_indent depth)
  have hnumber (k : Nat) := List.count_eq_zero.2 (feed_not_mem_toDigits k)
  have hmessage (s : String) := List.count_eq_zero.2 (Text.feed_not_mem_firstLine s)
  have hseverity (s : Severity) := List.count_eq_zero.2 (feed_not_mem_label s)
  have hmark : (if selected = some before then ">" else " ").toList.count '\n' = 0 := by
    split <;> decide
  cases n with
  | fileGroup | ruleGroup =>
    simp [lineOf, Node.caption, List.count_append, hindent, hnumber]
  | leaf p address =>
    have hword (k : UInt32) : (toString k).toList.count '\n' = 0 := by
      show (Nat.repr k.toNat).toList.count '\n' = 0
      rw [Nat.toList_repr, hnumber]
    simp [lineOf, Node.caption, leafText, Problem.place, List.count_append, hmark, hindent, hword,
      hmessage, hseverity]

/-- A line ends with a bracket, so it does not lose its last character when it is read. -/
theorem getLast?_lineOf : (lineOf selected depth before n).toList.getLast? ≠ some '\r' := by
  have hround (s : String) : (s ++ ")").toList.getLast? = some ')' := by
    rw [String.toList_append]
    exact List.getLast?_concat
  have hsquare (s : String) : (s ++ "]").toList.getLast? = some ']' := by
    rw [String.toList_append]
    exact List.getLast?_concat
  cases n with
  | fileGroup | ruleGroup =>
    rw [lineOf, hround]
    · decide
    · intro p address h
      cases h
  | leaf p address =>
    rw [lineOf, leafText, ← String.append_assoc, hsquare]
    decide

theorem length_lines_chunkOf :
    (Text.lines (chunkOf selected depth before n)).length = n.caption.toList.count '\n' + 1 := by
  rw [chunkOf_eq, Text.length_lines_feed, count_lineOf]

theorem lines_chunkOf (h : '\n' ∉ n.caption.toList) :
    Text.lines (chunkOf selected depth before n) = [lineOf selected depth before n] := by
  rw [chunkOf_eq]
  apply Text.lines_feed
  · rw [← List.count_eq_zero, count_lineOf]
    exact List.count_eq_zero.2 h
  · exact getLast?_lineOf selected depth before n

theorem firstLine_chunkOf (h : '\n' ∉ n.caption.toList) :
    Text.firstLine (chunkOf selected depth before n) = lineOf selected depth before n := by
  rw [Text.firstLine_eq, lines_chunkOf selected depth before n h]
  rfl

end

/-! ## Lines of a tree -/

/-- The lines are those of the nodes of a tree, one for each node, in pre-order. -/
structure LineForNode (v : View) (selected : Option Nat) (ls : List String) : Prop where
  length_eq : ls.length = v.nodes.length
  getElem?_eq : ∀ (i depth : Nat) (n : Node), v.nodes[i]? = some (depth, n) →
    ls[i]? = some (lineOf selected depth (leavesAmong (v.nodes.take i)) n)

section
variable (v : View) (selected : Option Nat)

/-- The lines of a tree are those of its chunks one after another. -/
theorem lines_render :
    Text.lines (v.render selected) = (v.chunks selected).flatMap Text.lines := by
  apply Text.lines_join
  intro chunk hchunk
  obtain ⟨e, -, before, rfl⟩ := exists_of_mem_chunks hchunk
  exact ⟨_, chunkOf_eq ..⟩

theorem length_lines_chunksFrom (before : Nat) (nodes : List (Nat × Node)) :
    ((chunksFrom selected before nodes).flatMap Text.lines).length =
      nodes.length + (nodes.flatMap fun e => e.2.caption.toList).count '\n' := by
  induction nodes generalizing before with
  | nil => rfl
  | cons e nodes ih =>
    rw [chunksFrom, List.flatMap_cons, List.length_append, length_lines_chunkOf, ih,
      List.flatMap_cons, List.count_append, List.length_cons]
    omega

/-- A tree has one line for each node, and one more for each line feed in a caption. -/
theorem length_lines_render :
    (Text.lines (v.render selected)).length =
      v.nodes.length + (v.nodes.flatMap fun e => e.2.caption.toList).count '\n' := by
  rw [lines_render, chunks, nodesChunks_eq, length_lines_chunksFrom]
  rfl

theorem unbroken_iff_nodes :
    Unbroken v.roots ↔ ∀ e ∈ v.nodes, '\n' ∉ e.2.caption.toList := by
  rw [Unbroken, ← map_preorderOfAt 0, List.forall_mem_map]
  rfl

theorem length_lines_render_iff :
    (Text.lines (v.render selected)).length = v.nodes.length ↔ Unbroken v.roots := by
  rw [length_lines_render, Nat.add_eq_left, List.count_eq_zero, unbroken_iff_nodes]
  simp

/-- In an unbroken tree each node has a line. -/
theorem lineForNode_of_unbroken (h : Unbroken v.roots) :
    v.LineForNode selected (Text.lines (v.render selected)) where
  length_eq := (v.length_lines_render_iff selected).2 h
  getElem?_eq := by
    rw [unbroken_iff_nodes] at h
    have hlines : ∀ chunk ∈ v.chunks selected, Text.lines chunk = [Text.firstLine chunk] := by
      intro chunk hchunk
      obtain ⟨e, he, before, rfl⟩ := exists_of_mem_chunks hchunk
      rw [lines_chunkOf _ _ _ _ (h e he), firstLine_chunkOf _ _ _ _ (h e he)]
    intro i depth n hn
    rw [lines_render, List.flatMap_congr hlines, ← List.map_eq_flatMap, List.getElem?_map,
      getElem?_chunks hn, Option.map_some,
      firstLine_chunkOf _ _ _ _ (h _ (List.mem_of_getElem? hn))]

end

/-- The tree of problems has as many lines as nodes if the source, the code and, where there are
groups of files, the label of the file of each problem are on one line, and only then; its lines are
then those of the nodes in pre-order.  Otherwise the nodes still follow one another, but each takes
one more line for each line feed in its caption. -/
theorem one_line_for_each_node_iff (ps : List Problem) (mode : GroupMode) (root : Path)
    (selected : Option Nat) :
    let v := arrange ps mode root
    let ls := Text.lines (v.render selected)
    (ls.length = v.nodes.length ↔ ∀ p ∈ ps, p.OneLine mode root) ∧
      (v.LineForNode selected ls ↔ ∀ p ∈ ps, p.OneLine mode root) ∧
      ls.length = v.nodes.length + (v.nodes.flatMap fun e => e.2.caption.toList).count '\n' ∧
      ls = (v.chunks selected).flatMap Text.lines ∧
      (∀ text, v.render? selected = some text → Text.lines text = ls) ∧
      ∀ (i depth : Nat) (n : Node), v.nodes[i]? = some (depth, n) →
        ∃ chunk, (v.chunks selected)[i]? = some chunk ∧
          (Text.lines chunk).length = n.caption.toList.count '\n' + 1 := by
  intro v ls
  have hlength : ls.length = v.nodes.length ↔ ∀ p ∈ ps, p.OneLine mode root :=
    (v.length_lines_render_iff selected).trans (unbroken_arrange ps mode root)
  refine ⟨hlength, ?_, v.length_lines_render selected, v.lines_render selected, ?_, ?_⟩
  · constructor
    · intro h
      exact hlength.1 h.length_eq
    · intro h
      exact v.lineForNode_of_unbroken selected ((unbroken_arrange ps mode root).2 h)
  · intro text htext
    exact congrArg Text.lines (eq_render_of_render? htext)
  · intro i depth n hn
    exact ⟨_, getElem?_chunks hn, length_lines_chunkOf ..⟩

/-- A message of several lines takes one line, and so does a file with a line feed in its name where
files are not shown.  Where they are, its group takes one more line. -/
theorem one_line_for_each_node_iff_continued :
    let ps : List Problem := [
      ⟨⟨"/ws/a.ts"⟩, .point ⟨0, 4⟩, .error, "Bad.\nWant A.\n", "ts", some "2322"⟩,
      ⟨⟨"/ws/a\nb.ts"⟩, .point ⟨2, 0⟩, .warning, "\nUnused.", "", some ""⟩]
    let v (mode : GroupMode) := arrange ps mode ⟨"/ws"⟩
    (v .rule).LineForNode (some 1) (Text.lines ((v .rule).render (some 1))) ∧
      (Text.lines ((v .both).render none)).length ≠ (v .both).nodes.length := by
  intro ps v
  have hrule : ∀ p ∈ ps, p.OneLine .rule ⟨"/ws"⟩ := by decide
  have hboth : ¬∀ p ∈ ps, p.OneLine .both ⟨"/ws"⟩ := by decide
  exact ⟨(one_line_for_each_node_iff ps .rule ⟨"/ws"⟩ (some 1)).2.1.2 hrule,
    mt (one_line_for_each_node_iff ps .both ⟨"/ws"⟩ none).1.1 hboth⟩

/-- A linter names a rule with a line feed, and its problem takes two lines. -/
theorem two_lines_for_one_leaf :
    ¬∀ (ps : List Problem) (mode : GroupMode) (root : Path) (selected : Option Nat),
      (arrange ps mode root).LineForNode selected
        (Text.lines ((arrange ps mode root).render selected)) := by
  intro h
  let p : Problem :=
    ⟨⟨"/ws/a.ts"⟩, .point ⟨0, 0⟩, .error, "Bad.\nWant A.", "lint", some "team/no\nfoo"⟩
  have hone := (length_lines_render_iff _ none).1 (h [p] .file ⟨"/ws"⟩ none).length_eq
  have hp : p.OneLine .file ⟨"/ws"⟩ := (unbroken_arrange [p] .file ⟨"/ws"⟩).1 hone p (.head _)
  exact absurd hp (by decide)

end View

end ProblemBoard
