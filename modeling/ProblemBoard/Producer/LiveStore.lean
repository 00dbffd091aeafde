import ProblemBoard.Producer.Basic

/-!
# The live store

What an editor has published for its files.  A new list for a file takes the place of the
old one, and an empty list removes the file.  As a producer the store answers every request
with all that it holds.
-/

namespace ProblemBoard

/-- What an editor has published for its files. -/
@[ext]
structure LiveStore where
  /-- The findings of each file. -/
  files : PathMap (List Finding)
  /-- None of the lists is empty. -/
  filled : ∀ xs ∈ files.values, xs ≠ []
  deriving DecidableEq, Repr

namespace LiveStore

def empty : LiveStore := ⟨.empty, nofun⟩

def remove (s : LiveStore) (p : Path) : LiveStore where
  files := s.files.erase p
  filled := fun xs hxs => s.filled xs (PathMap.mem_values_of_mem_erase hxs)

/-- The store with a list that is not empty in place of the one a file had. -/
def publish (s : LiveStore) (p : Path) (xs : List Finding) (h : xs ≠ []) : LiveStore where
  files := s.files.insert p xs
  filled := by
    intro ys hys
    rcases PathMap.mem_values_of_mem_insert hys with rfl | hys
    · exact h
    · exact s.filled ys hys

def update (s : LiveStore) (p : Path) (xs : List Finding) : LiveStore :=
  if h : xs = [] then s.remove p else s.publish p xs h

def clear (_ : LiveStore) : LiveStore := empty

def fileCount (s : LiveStore) : Nat := s.files.size

/-- Everything published, as the findings of a run. -/
def snapshot (s : LiveStore) : Findings := ⟨s.files, []⟩

/-- What the store answers as a producer, whatever it is asked. -/
def answer (s : LiveStore) (_ : Request) : Except Failure Findings := .ok s.snapshot

end LiveStore

end ProblemBoard
