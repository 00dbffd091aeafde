import ProblemBoard.Exclude.Pattern

/-!
# Patterns as regular expressions

A pattern stands for a regular expression that matches the same texts.  `Expr` is what such an
expression is built from, `Expr.text` writes it down, and `Expr.Matches` says what it matches.
-/

namespace ProblemBoard.Exclude

/-! ## Expressions -/

/-- A set of characters, of which a run of any length is matched. -/
inductive CharSet where
  /-- All characters but the line feed. -/
  | notFeed
  /-- All characters but the separator. -/
  | notSlash
  deriving DecidableEq, Repr

def CharSet.holds : CharSet → Char → Bool
  | notFeed, c => c != '\n'
  | notSlash, c => c != '/'

def CharSet.text : CharSet → String
  | notFeed => "."
  | notSlash => "[^/]"

/-- A regular expression. -/
inductive Expr where
  | empty
  /-- A character that stands for itself. -/
  | literal (c : Char)
  /-- A run of characters of a set. -/
  | run (set : CharSet)
  | optional (e : Expr)
  /-- One expression and then another one. -/
  | seq (d e : Expr)
  deriving DecidableEq, Repr

namespace Expr

/-- The characters that stand behind a backslash in a regular expression to match
themselves. -/
def reserved : List Char :=
  ['\\', '.', '+', '*', '?', '(', ')', '|', '[', ']', '\x7b', '\x7d', '^', '$', '#', '&', '-', '~']

/-- An expression as it is written. -/
def text : Expr → String
  | empty => ""
  | literal c => String.ofList (if reserved.contains c then ['\\', c] else [c])
  | run set => set.text ++ "*"
  | optional e => "(?:" ++ e.text ++ ")?"
  | seq d e => d.text ++ e.text

/-- An expression matches a text. -/
inductive Matches : Expr → List Char → Prop where
  | empty : Matches .empty []
  | literal {c : Char} : Matches (.literal c) [c]
  | run {set : CharSet} {cs : List Char} :
      (∀ c ∈ cs, set.holds c = true) → Matches (.run set) cs
  | skip {e : Expr} : Matches (.optional e) []
  | take {e : Expr} {cs : List Char} : Matches e cs → Matches (.optional e) cs
  | seq {d e : Expr} {cs ds : List Char} :
      Matches d cs → Matches e ds → Matches (.seq d e) (cs ++ ds)

end Expr

/-! ## Expressions of patterns -/

def Token.expr : Token → Expr
  | .anyFolders => .optional (.seq (.run .notFeed) (.literal '/'))
  | .anyTail => .optional (.seq (.literal '/') (.run .notFeed))
  | .anything => .run .notFeed
  | .segmentRun => .run .notSlash
  | .literal c => .literal c

namespace Pattern

def expr : Pattern → Expr
  | [] => .empty
  | t :: ts => .seq t.expr (expr ts)

/-- A pattern as a regular expression, bound to both ends of the text. -/
def regex (p : Pattern) : String := "^" ++ p.expr.text ++ "$"

end Pattern

end ProblemBoard.Exclude
