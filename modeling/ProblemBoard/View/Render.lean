import ProblemBoard.Path.Label
import ProblemBoard.Text.Lines
import ProblemBoard.View.Tree

/-!
# The tree as text

One chunk of text for each node, in the order in which the nodes are met: a group with the
number of its leaves, a leaf with the first line of its message.  A chunk is indented by
its depth.  The leaf under the cursor is marked; leaves are counted in the order of
navigation.

A leaf shows numbers that are one more than those of its problem.  `render` adds them with 32
bits.  `render?` makes the same text where overflow is an error, and none if there is one.
-/

namespace ProblemBoard

namespace View

def indent (depth : Nat) : String := String.ofList (List.replicate (2 * depth) ' ')

/-- A problem as a leaf is shown, starting at a place. -/
def leafText (place : String) (p : Problem) : String :=
  place ++ " " ++ p.severity.label ++ " " ++ Text.firstLine p.message ++ " [" ++ p.origin ++ "]"

def leafChunkAt (place : String) (marked : Bool) (depth : Nat) (p : Problem) : String :=
  (if marked then ">" else " ") ++ indent depth ++ leafText place p ++ "\n"

def leafChunk (marked : Bool) (depth : Nat) (p : Problem) : String :=
  leafChunkAt p.place marked depth p

def groupChunk (depth : Nat) (label : String) (count : Nat) : String :=
  " " ++ indent depth ++ label ++ " (" ++ toString count ++ ")\n"

mutual

/-- The chunks of a node at a depth, behind `before` leaves. -/
def nodeChunks (selected : Option Nat) (depth before : Nat) : Node → List String
  | .fileGroup label path children =>
      groupChunk depth label (Node.fileGroup label path children).leafCount ::
        nodesChunks selected (depth + 1) before children
  | .ruleGroup label children =>
      groupChunk depth label (Node.ruleGroup label children).leafCount ::
        nodesChunks selected (depth + 1) before children
  | .leaf p _ => [leafChunk (selected = some before) depth p]

/-- The chunks of nodes at a depth, behind `before` leaves. -/
def nodesChunks (selected : Option Nat) (depth before : Nat) : List Node → List String
  | [] => []
  | n :: ns =>
      nodeChunks selected depth before n ++
        nodesChunks selected depth (before + n.leafCount) ns

end

def chunks (v : View) (selected : Option Nat) : List String := nodesChunks selected 0 0 v.roots

/-- The tree as text. -/
def render (v : View) (selected : Option Nat) : String := String.join (v.chunks selected)

mutual

/-- The chunks of a node where overflow is an error. -/
def nodeChunks? (selected : Option Nat) (depth before : Nat) : Node → Option (List String)
  | .fileGroup label path children => do
      let below ← nodesChunks? selected (depth + 1) before children
      return groupChunk depth label (Node.fileGroup label path children).leafCount :: below
  | .ruleGroup label children => do
      let below ← nodesChunks? selected (depth + 1) before children
      return groupChunk depth label (Node.ruleGroup label children).leafCount :: below
  | .leaf p _ => do
      let place ← p.place?
      return [leafChunkAt place (selected = some before) depth p]

/-- The chunks of nodes where overflow is an error. -/
def nodesChunks? (selected : Option Nat) (depth before : Nat) : List Node → Option (List String)
  | [] => some []
  | n :: ns => do
      let front ← nodeChunks? selected depth before n
      let back ← nodesChunks? selected depth (before + n.leafCount) ns
      return front ++ back

end

/-- The tree as text where overflow is an error: `none` when a number on the way needs more than
32 bits. -/
def render? (v : View) (selected : Option Nat) : Option String :=
  (nodesChunks? selected 0 0 v.roots).map String.join

/-- The number of problems in words. -/
def summary (v : View) : String := v.tally.summary

end View

namespace Problem

/-- The problem on one line, as seen from the workspace root. -/
def location (p : Problem) (root : Path) : String := p.display (root.label p.file)

end Problem

end ProblemBoard
