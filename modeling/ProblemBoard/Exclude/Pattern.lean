/-!
# Exclude patterns

A pattern is matched against the label of a file, from its first to its last character.
`*` stands for any run of characters other than the separator, `**` for any run of
characters other than the line feed.  A `**/` also matches nothing at all, and so does a
`/**` at the end, so that `**/dist/**` reaches a `dist` at the top as well as all below it.

`Pattern.accepts` says what is matched, one token at a time.  `Pattern.fits` computes it
for all suffixes of the label at once, from the last token to the first, so a pattern with
many wildcards costs no more than its length times that of the label.
`fits_eq_accepts` says that the two agree.
-/

namespace ProblemBoard.Exclude

/-- One token of a pattern. -/
inductive Token where
  /-- `**/`: any number of whole segments, maybe none. -/
  | anyFolders
  /-- `/**` at the end: a separator and anything, or nothing. -/
  | anyTail
  /-- `**`: any run of characters other than the line feed. -/
  | anything
  /-- `*`: any run of characters other than the separator. -/
  | segmentRun
  /-- A character that matches itself. -/
  | literal (c : Char)
  deriving DecidableEq, Repr

abbrev Pattern := List Token

namespace Pattern

def ofChars : List Char → Pattern
  | [] => []
  | '*' :: '*' :: '/' :: rest => .anyFolders :: ofChars rest
  | ['/', '*', '*'] => [.anyTail]
  | '*' :: '*' :: rest => .anything :: ofChars rest
  | '*' :: rest => .segmentRun :: ofChars rest
  | c :: rest => .literal c :: ofChars rest

/-! ## What is matched -/

/-- Any run of characters with a property, and then what `k` accepts. -/
def starThen (p : Char → Bool) (k : List Char → Bool) : List Char → Bool
  | [] => k []
  | c :: cs => k (c :: cs) || (p c && starThen p k cs)

/-- Any run of characters other than the line feed, a separator, and then what `k`
accepts. -/
def foldersThen (k : List Char → Bool) : List Char → Bool
  | [] => false
  | c :: cs => (c == '/' && k cs) || (c != '\n' && foldersThen k cs)

/-- One token, and then what `k` accepts. -/
def tokenThen (k : List Char → Bool) : Token → List Char → Bool
  | .anyFolders, cs => k cs || foldersThen k cs
  | .anyTail, cs =>
      k cs || match cs with
        | [] => false
        | c :: cs => c == '/' && starThen (· != '\n') k cs
  | .anything, cs => starThen (· != '\n') k cs
  | .segmentRun, cs => starThen (· != '/') k cs
  | .literal _, [] => false
  | .literal c, d :: cs => c == d && k cs

/-- Whether a pattern matches a whole text. -/
def accepts : Pattern → List Char → Bool
  | [], cs => cs.isEmpty
  | t :: ts, cs => tokenThen (accepts ts) t cs

/-! ## All suffixes at once

A table holds one truth value for each suffix of a text, the longest first. -/

/-- The suffixes of a text, the longest first. -/
def suffixes : List Char → List (List Char)
  | [] => [[]]
  | c :: cs => (c :: cs) :: suffixes cs

/-- The table of the empty pattern. -/
def endTable : List Char → List Bool
  | [] => [true]
  | _ :: cs => false :: endTable cs

/-- The table of a run, from the table of what follows. -/
def starTable (p : Char → Bool) : List Char → List Bool → List Bool
  | [], next => [next.headD false]
  | c :: cs, next =>
      let below := starTable p cs next.tail
      (next.headD false || (p c && below.headD false)) :: below

/-- The table of a run up to a separator, from the table of what follows. -/
def foldersTable : List Char → List Bool → List Bool
  | [], _ => [false]
  | c :: cs, next =>
      let below := foldersTable cs next.tail
      ((c == '/' && next.tail.headD false) || (c != '\n' && below.headD false)) :: below

def separatorTable : List Char → List Bool → List Bool
  | [], _ => [false]
  | c :: cs, next => (c == '/' && next.tail.headD false) :: separatorTable cs next.tail

def literalTable (c : Char) : List Char → List Bool → List Bool
  | [], _ => [false]
  | d :: cs, next => (c == d && next.tail.headD false) :: literalTable c cs next.tail

/-- The table of a token, from the table of what follows. -/
def tokenTable (cs : List Char) (next : List Bool) : Token → List Bool
  | .anyFolders => List.zipWith (· || ·) next (foldersTable cs next)
  | .anyTail => List.zipWith (· || ·) next (separatorTable cs (starTable (· != '\n') cs next))
  | .anything => starTable (· != '\n') cs next
  | .segmentRun => starTable (· != '/') cs next
  | .literal c => literalTable c cs next

/-- The table of a pattern. -/
def table : Pattern → List Char → List Bool
  | [], cs => endTable cs
  | t :: ts, cs => tokenTable cs (table ts cs) t

/-- Whether a pattern matches a whole text. -/
def fits (p : Pattern) (cs : List Char) : Bool := (table p cs).headD false

/-! ## The two agree -/

theorem suffixes_head (f : List Char → Bool) (cs : List Char) :
    ((suffixes cs).map f).headD false = f cs := by
  cases cs <;> rfl

theorem endTable_eq (cs : List Char) : endTable cs = (suffixes cs).map List.isEmpty := by
  induction cs with
  | nil => rfl
  | cons c cs ih => simp [endTable, suffixes, ih]

theorem starTable_eq (p : Char → Bool) (k : List Char → Bool) (cs : List Char) :
    starTable p cs ((suffixes cs).map k) = (suffixes cs).map (starThen p k) := by
  induction cs with
  | nil => simp [starTable, suffixes, starThen]
  | cons c cs ih =>
    simp [starTable, suffixes, starThen, ih, suffixes_head, -List.headD_eq_head?_getD]

theorem foldersTable_eq (k : List Char → Bool) (cs : List Char) :
    foldersTable cs ((suffixes cs).map k) = (suffixes cs).map (foldersThen k) := by
  induction cs with
  | nil => simp [foldersTable, suffixes, foldersThen]
  | cons c cs ih =>
    simp [foldersTable, suffixes, foldersThen, ih, suffixes_head, -List.headD_eq_head?_getD]

theorem separatorTable_eq (k : List Char → Bool) (cs : List Char) :
    separatorTable cs ((suffixes cs).map k) =
      (suffixes cs).map fun
        | [] => false
        | c :: cs => c == '/' && k cs := by
  induction cs with
  | nil => simp [separatorTable, suffixes]
  | cons c cs ih =>
    simp [separatorTable, suffixes, ih, suffixes_head, -List.headD_eq_head?_getD]

theorem literalTable_eq (c : Char) (k : List Char → Bool) (cs : List Char) :
    literalTable c cs ((suffixes cs).map k) =
      (suffixes cs).map (tokenThen k (.literal c)) := by
  induction cs with
  | nil => simp [literalTable, suffixes, tokenThen]
  | cons d cs ih =>
    simp [literalTable, suffixes, tokenThen, ih, suffixes_head, -List.headD_eq_head?_getD]

theorem zipWith_or_map (f g : List Char → Bool) (xs : List (List Char)) :
    List.zipWith (· || ·) (xs.map f) (xs.map g) = xs.map fun x => f x || g x := by
  induction xs with
  | nil => rfl
  | cons x xs ih => simp [ih]

theorem tokenTable_eq (k : List Char → Bool) (t : Token) (cs : List Char) :
    tokenTable cs ((suffixes cs).map k) t = (suffixes cs).map (tokenThen k t) := by
  cases t with
  | anyFolders =>
    simp only [tokenTable, foldersTable_eq, zipWith_or_map]
    rfl
  | anyTail =>
    simp only [tokenTable, starTable_eq, separatorTable_eq, zipWith_or_map]
    refine List.map_congr_left fun s _ => ?_
    cases s <;> rfl
  | anything => exact starTable_eq _ _ _
  | segmentRun => exact starTable_eq _ _ _
  | literal c => exact literalTable_eq c k cs

theorem table_eq (p : Pattern) (cs : List Char) : table p cs = (suffixes cs).map (accepts p) := by
  induction p with
  | nil => exact endTable_eq cs
  | cons t ts ih => simp only [table, ih, tokenTable_eq]; rfl

theorem fits_eq_accepts (p : Pattern) (cs : List Char) : p.fits cs = p.accepts cs := by
  rw [fits, table_eq, suffixes_head]

end Pattern

end ProblemBoard.Exclude
