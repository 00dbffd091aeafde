/-!
# Lines

A line ends at a line feed, and a carriage return right before that line feed belongs
to the line end.  The text after the last line feed is a line when it is not empty, and
a carriage return there belongs to it.
-/

namespace ProblemBoard.Text

/-- A line whose line feed was removed, without the carriage return before it. -/
def dropReturn (line : List Char) : List Char :=
  if line.getLast? = some '\r' then line.dropLast else line

/-- The lines of a text; `acc` holds the current line so far, in reverse. -/
def lineCharsFrom (acc : List Char) : List Char → List (List Char)
  | [] => if acc.isEmpty then [] else [acc.reverse]
  | c :: cs =>
      if c = '\n' then dropReturn acc.reverse :: lineCharsFrom [] cs
      else lineCharsFrom (c :: acc) cs

/-- The lines of a text, as characters. -/
def lineChars (cs : List Char) : List (List Char) := lineCharsFrom [] cs

def lines (s : String) : List String := (lineChars s.toList).map String.ofList

/-- The first line of a text, empty when there is none. -/
def firstLine (s : String) : String := String.ofList ((lineChars s.toList).head?.getD [])

/-- The last `n` lines of a text, joined by line feeds. -/
def lastLines (n : Nat) (s : String) : String :=
  let ls := lines s
  "\n".intercalate (ls.drop (ls.length - n))

end ProblemBoard.Text
