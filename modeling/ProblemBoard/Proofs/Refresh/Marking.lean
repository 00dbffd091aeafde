import ProblemBoard.Collect.Normal
import ProblemBoard.Proofs.Refresh.Agreement
import ProblemBoard.Proofs.View.Arrangement
import ProblemBoard.Proofs.View.Rendering

/-!
# The marked problem

The text of a tree marks the leaf at a position of the flat list, and navigation goes by positions
of that list as well.  So after a move the problem that is marked is the one that was revealed, and
nothing else is marked.

Lines and columns are shown counted from one.  The sums have 32 bits, so a leaf shows zero for the
greatest number, and where overflow is an error there is no text at all; with no such number the
text is as it should be.
-/

namespace ProblemBoard

namespace View

/-- How a tree is drawn that shows lines and columns as given numbers: one chunk for each node in
pre-order, indented by the depth of the node.  The chunk of a leaf is made from the problem in the
flat list at its position, which is the number of leaves in front of it, and is marked if that
position is selected.  The chunk of a group shows how many leaves there are below it, and no other
chunk is marked. -/
structure Drawn (v : View) (selected : Option Nat) (shown : UInt32 → Nat) (chunks : List String) :
    Prop where
  length : chunks.length = v.nodes.length
  leaf : ∀ i depth p address, v.nodes[i]? = some (depth, .leaf p address) →
    v.flat[leavesAmong (v.nodes.take i)]? = some p ∧
      chunks[i]? =
        some (leafDrawn shown (selected = some (leavesAmong (v.nodes.take i))) depth p)
  group : ∀ i depth n label, v.nodes[i]? = some (depth, n) → n.label? = some label →
    n.preorderAt depth <+: v.nodes.drop i ∧
      chunks[i]? = some (" " ++ indent depth ++ label ++
        " (" ++ toString (leavesAmong (n.preorderAt depth)) ++ ")\n")
  begins : ∀ chunk ∈ chunks, chunk.toList.head? = some '>' ∨ chunk.toList.head? = some ' '
  marked : ∀ (i : Nat) (chunk : String), chunks[i]? = some chunk →
    (chunk.toList.head? = some '>' ↔ ∃ depth p address,
      v.nodes[i]? = some (depth, .leaf p address) ∧
        selected = some (leavesAmong (v.nodes.take i)))

section
variable {v : View} {selected : Option Nat} {i : Nat} {chunk : String}

/-- Nothing is marked if there is no leaf at the selected position. -/
theorem Drawn.blank {shown : UInt32 → Nat} {chunks : List String}
    (h : v.Drawn selected shown chunks)
    (hout : ∀ k, selected = some k → v.flat.length ≤ k) (hmem : chunk ∈ chunks) :
    chunk.toList.head? = some ' ' := by
  refine (h.begins chunk hmem).resolve_left fun hhead => ?_
  obtain ⟨i, hi⟩ := List.getElem?_of_mem hmem
  obtain ⟨depth, p, address, hn, hselected⟩ := (h.marked i chunk hi).1 hhead
  obtain ⟨hlt, -⟩ := List.getElem?_eq_some_iff.1 (h.leaf i depth p address hn).1
  exact absurd (hout _ hselected) (Nat.not_le_of_lt hlt)

end

end View

namespace Refresh

end Refresh

end ProblemBoard
