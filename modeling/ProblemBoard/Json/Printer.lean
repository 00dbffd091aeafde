import ProblemBoard.Json.Value
import ProblemBoard.Text.Digit

/-!
# Printing JSON

Values over several lines, each level indented by two spaces.  In strings only quotes,
backslashes and control characters are escaped.
-/

namespace ProblemBoard.Json

namespace Value

/-- A hexadecimal digit in lower case. -/
def hexDigit (n : Nat) : Char :=
  if n < 10 then Char.ofNat (n + '0'.toNat) else Char.ofNat (n - 10 + 'a'.toNat)

/-- A character inside a string. -/
def escapeChar (c : Char) : List Char :=
  match c with
  | '"' => ['\\', '"']
  | '\\' => ['\\', '\\']
  | '\n' => ['\\', 'n']
  | '\r' => ['\\', 'r']
  | '\t' => ['\\', 't']
  | '\x08' => ['\\', 'b']
  | '\x0c' => ['\\', 'f']
  | c =>
      if c.toNat < 0x20 then
        ['\\', 'u', '0', '0', hexDigit (c.toNat / 16), hexDigit (c.toNat % 16)]
      else [c]

/-- A string with its quotes. -/
def quote (s : String) : String := String.ofList ('"' :: s.toList.flatMap escapeChar ++ ['"'])

/-- A line break and the indentation of a level. -/
def lineBreak (level : Nat) : String := "\n" ++ String.ofList (List.replicate (2 * level) ' ')

mutual

/-- A value whose first line is indented already. -/
def prettyAt (level : Nat) : Value → String
  | .null => "null"
  | .bool b => if b then "true" else "false"
  | .integer n => toString n
  | .fraction => "0.0"
  | .string s => quote s
  | .array [] => "[]"
  | .array items => "[" ++ ",".intercalate (itemsAt (level + 1) items) ++ lineBreak level ++ "]"
  | .object [] => "\x7b\x7d"
  | .object members =>
      "\x7b" ++ ",".intercalate (membersAt (level + 1) members) ++ lineBreak level ++ "\x7d"

def itemsAt (level : Nat) : List Value → List String
  | [] => []
  | v :: vs => (lineBreak level ++ prettyAt level v) :: itemsAt level vs

def membersAt (level : Nat) : List (String × Value) → List String
  | [] => []
  | (k, v) :: ms => (lineBreak level ++ quote k ++ ": " ++ prettyAt level v) :: membersAt level ms

end

/-- A value over several lines. -/
def pretty (v : Value) : String := prettyAt 0 v

end Value

end ProblemBoard.Json
