import ProblemBoard.Text.Split

/-!
# Paths

A path is a text, and its meaning is the list of its components.  Repeated separators, a
separator at the end and a `.` that is not the first component leave no component.  Two
paths are the same when their components are, whatever their spelling, and paths are
ordered component by component: the root directory, `.`, `..`, names by code points.

Everything here is lexical: no file system is consulted.
-/

namespace ProblemBoard

/-- One step of a path. -/
inductive Component where
  /-- The root directory, only at the start of an absolute path. -/
  | root
  /-- A `.` at the start of a relative path. -/
  | here
  /-- The parent directory `..`. -/
  | up
  /-- A named entry. -/
  | name (text : String)
  deriving DecidableEq, Repr

namespace Component

/-- The kinds of component in their order. -/
def rank : Component → Nat
  | root => 0
  | here => 1
  | up => 2
  | name _ => 3

def text : Component → String
  | name s => s
  | _ => ""

/-- Components are ordered by kind, names by code points. -/
instance : LT Component := ⟨fun a b => a.rank < b.rank ∨ a.rank = b.rank ∧ a.text < b.text⟩

instance (a b : Component) : Decidable (a < b) :=
  inferInstanceAs (Decidable (a.rank < b.rank ∨ a.rank = b.rank ∧ a.text < b.text))

end Component

/-- A path as it was written. -/
structure Path where
  text : String
  deriving DecidableEq, Repr, Inhabited

namespace Path

/-! ## Pieces and components -/

/-- What stands between the separators of a text. -/
def pieces (cs : List Char) : List (List Char) := Text.split '/' cs

/-- Pieces that name nothing: the empty one and `.`. -/
def isVoid (piece : List Char) : Bool := piece.isEmpty || piece == ['.']

/-- The component of a piece that does not start a relative path. -/
def ofPiece (piece : List Char) : Option Component :=
  if isVoid piece then none
  else if piece == ['.', '.'] then some .up
  else some (.name (String.ofList piece))

/-- Whether a path starts at the root directory. -/
def isAbsolute (p : Path) : Bool := p.text.toList.head? = some '/'

/-- The pieces of a path; those of an absolute path stand behind its first separator. -/
def bodyPieces (p : Path) : List (List Char) :=
  if p.isAbsolute then pieces p.text.toList.tail else pieces p.text.toList

def components (p : Path) : List Component :=
  if p.isAbsolute then .root :: p.bodyPieces.filterMap ofPiece
  else if p.bodyPieces.head? = some ['.'] then .here :: p.bodyPieces.tail.filterMap ofPiece
  else p.bodyPieces.filterMap ofPiece

/-- Whether two paths have the same components. -/
def same (p q : Path) : Bool := p.components == q.components

/-- Paths are ordered by their components. -/
def before (p q : Path) : Bool := p.components < q.components

/-! ## Building paths -/

/-- A relative path is appended behind a separator, an absolute one replaces the base. -/
def join (base rel : Path) : Path :=
  if rel.isAbsolute then rel
  else if base.text.isEmpty || base.text.toList.getLast? = some '/' then ⟨base.text ++ rel.text⟩
  else ⟨base.text ++ "/" ++ rel.text⟩

/-- The path of an entry of a directory. -/
def child (dir : Path) (name : String) : Path := dir.join ⟨name⟩

/-- The path as seen from a directory: itself when absolute, else below the directory. -/
def under (dir p : Path) : Path := if p.isAbsolute then p else dir.join p

theorem isAbsolute_join {base : Path} (h : base.isAbsolute = true) (rel : Path) :
    (base.join rel).isAbsolute = true := by
  have happend : ∀ s : String, isAbsolute ⟨base.text ++ s⟩ = true := by
    intro s
    rw [isAbsolute, decide_eq_true_eq] at h ⊢
    rw [String.toList_append, List.head?_append, h, Option.some_or]
  unfold join
  split
  · next hrel => exact hrel
  · split
    · exact happend rel.text
    · rw [String.append_assoc]
      exact happend ("/" ++ rel.text)

theorem isAbsolute_under {dir : Path} (h : dir.isAbsolute = true) (p : Path) :
    (dir.under p).isAbsolute = true := by
  unfold under
  split
  · next hp => exact hp
  · exact isAbsolute_join h p

/-! ## Taking paths apart -/

/-- The name at the end of a path, `none` when it ends in another component. -/
def fileName (p : Path) : Option String :=
  match p.components.getLast? with
  | some (.name s) => some s
  | _ => none

/-- The components of a path below a directory, `none` when it is not below. -/
def below? (dir p : Path) : Option (List Component) :=
  if dir.components.isPrefixOf p.components then
    some (p.components.drop dir.components.length)
  else none

/-- What is left in front of each component, last component first, given the pieces of a
path in reverse. -/
def leadingPieces : List (List Char) → List (List (List Char))
  | [] => []
  | p :: ps =>
      if isVoid p then leadingPieces ps else (ps.dropWhile isVoid).reverse :: leadingPieces ps

/-- Pieces put together with separators. -/
def glue (ps : List (List Char)) : List Char := ['/'].intercalate ps

/-- The directories a path lies in, nearest first. -/
def parents (p : Path) : List Path :=
  if p.isAbsolute then
    (leadingPieces p.bodyPieces.reverse).map fun ps => ⟨String.ofList ('/' :: glue ps)⟩
  else if p.bodyPieces.head? = some ['.'] then
    (leadingPieces p.bodyPieces.tail.reverse).map
      (fun ps => ⟨String.ofList (glue (['.'] :: ps))⟩) ++ [⟨""⟩]
  else
    (leadingPieces p.bodyPieces.reverse).map fun ps => ⟨String.ofList (glue ps)⟩

/-- A path and the directories it lies in, nearest first. -/
def ancestors (p : Path) : List Path := p :: p.parents

end Path

end ProblemBoard
