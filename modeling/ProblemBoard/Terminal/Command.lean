import ProblemBoard.Text.Blank
import ProblemBoard.Text.Digit
import ProblemBoard.View.Mode

/-!
# Typed commands

What a user types while the workspace is watched: a word or its first letter, or the number
of a problem.
-/

namespace ProblemBoard.Terminal

/-- What a user asks for. -/
inductive Command where
  | refresh
  | togglePause
  | next
  | previous
  /-- The problem of a number, from one. -/
  | goTo (n : Nat)
  | group (mode : GroupMode)
  | revalidate
  | help
  | quit
  deriving DecidableEq, Repr

namespace Command

/-- A problem number: at least one. -/
def ofNumber? (word : String) : Option Command :=
  match Text.readSignedDecimal Text.maxWord64 word.toList with
  | some (n + 1) => some (.goTo (n + 1))
  | _ => none

/-- The command of a word and those behind it. -/
def ofWords? : List String → Option Command
  | [] => none
  | word :: rest =>
      if ["r", "refresh"].contains word then some .refresh
      else if ["p", "pause"].contains word then some .togglePause
      else if ["n", "next"].contains word then some .next
      else if ["b", "prev", "previous"].contains word then some .previous
      else if ["g", "group"].contains word then
        (rest.head?.bind GroupMode.ofTyped?).map .group
      else if ["c", "config"].contains word then some .revalidate
      else if ["h", "?", "help"].contains word then some .help
      else if ["q", "quit", "exit"].contains word then some .quit
      else ofNumber? word

def ofLine? (line : String) : Option Command := ofWords? (Text.words line)

end Command

end ProblemBoard.Terminal
