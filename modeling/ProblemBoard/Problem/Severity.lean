import ProblemBoard.Json.Value

/-!
# Severities

How bad a problem is.  A severity is written as its label, in JSON as the label string or
as an object whose only member has the label as its key and `null` as its value.
-/

namespace ProblemBoard

/-- How bad a problem is. -/
inductive Severity where
  | error
  | warning
  | info
  | hint
  deriving DecidableEq, Repr

namespace Severity

/-- The severities in their order. -/
def all : List Severity := [error, warning, info, hint]

def label : Severity → String
  | error => "error"
  | warning => "warning"
  | info => "info"
  | hint => "hint"

/-- Whether a severity is counted by the badge and the exit status. -/
def isError : Severity → Bool
  | error => true
  | _ => false

/-- The severity with a label. -/
def ofLabel? (s : String) : Option Severity := all.find? fun v => v.label = s

/-- The severity that a JSON value denotes. -/
def ofJson? : Json.Value → Option Severity
  | .string s => ofLabel? s
  | .object [(key, .null)] => ofLabel? key
  | _ => none

theorem ofLabel?_label (v : Severity) : ofLabel? v.label = some v := by
  cases v <;> decide

end Severity

end ProblemBoard
