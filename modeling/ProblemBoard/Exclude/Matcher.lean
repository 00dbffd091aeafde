import ProblemBoard.Exclude.Pattern
import ProblemBoard.Text.Blank

/-!
# Sets of exclude patterns

Patterns are written with blanks around them or not, and a blank one says nothing.  A file
is excluded when some pattern matches its label.
-/

namespace ProblemBoard.Exclude

/-- The patterns that say something, in order. -/
def ofTexts (texts : List String) : List Pattern :=
  ((texts.map fun t => Text.trimChars t.toList).filter fun cs => !cs.isEmpty).map Pattern.ofChars

/-- Why texts cannot be used as patterns, if they cannot.  A matcher without limits can use all
of them. -/
def noLimit (_texts : List String) : Option String := none

/-- Whether some pattern matches a label. -/
def excludes (patterns : List Pattern) (label : String) : Bool :=
  patterns.any fun p => p.fits label.toList

/-- Of several patterns each one is asked on its own. -/
theorem excludes_ofTexts_eq_any (texts : List String) (label : String) :
    excludes (ofTexts texts) label = texts.any fun t => excludes (ofTexts [t]) label := by
  induction texts with
  | nil => rfl
  | cons t texts ih =>
    have happend : ofTexts (t :: texts) = ofTexts [t] ++ ofTexts texts := by
      simp only [ofTexts, ← List.map_append, ← List.filter_append]
      rfl
    rw [List.any_cons, ← ih, happend, excludes, List.any_append]
    rfl

end ProblemBoard.Exclude
