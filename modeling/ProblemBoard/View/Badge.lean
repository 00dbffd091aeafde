/-!
# Badges

The badge beside the list: nothing, the number of errors, or the notice that a scan runs.
-/

namespace ProblemBoard

/-- The badge beside the list. -/
inductive Badge where
  /-- A scan runs. -/
  | scanning
  /-- The number of errors, at least one. -/
  | count (errors : Nat)
  | clear
  deriving DecidableEq, Repr

namespace Badge

/-- The badge for a number of errors. -/
def ofErrors : Nat → Badge
  | 0 => clear
  | n => count n

/-- The text that explains a badge. -/
def tooltip : Badge → Option String
  | scanning => some "Scanning for problems..."
  | count 1 => some "1 error"
  | count n => some (toString n ++ " errors")
  | clear => none

def value : Badge → Option Nat
  | count n => some n
  | _ => none

/-- The badge as a line of text. -/
def text (b : Badge) : Option String :=
  match b.tooltip, b.value with
  | some tip, some n => some ("[" ++ toString n ++ "] " ++ tip)
  | tip, _ => tip

end Badge

end ProblemBoard
