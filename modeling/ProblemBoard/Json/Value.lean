/-!
# JSON values

The values of the JSON data format.  A number is kept as an integer when it is one of 64
bits; of any other number only its kind is kept, because no reader here asks for more.
Members of an object stand in the order in which they were written.
-/

namespace ProblemBoard.Json

/-- A JSON value. -/
inductive Value where
  | null
  | bool (b : Bool)
  /-- A number that is an integer. -/
  | integer (n : Int)
  /-- Any other number. -/
  | fraction
  | string (s : String)
  | array (items : List Value)
  | object (members : List (String × Value))
  deriving Inhabited

namespace Value

def nat (n : Nat) : Value := .integer n

/-- A string or `null`. -/
def string? : Option String → Value
  | some s => .string s
  | none => .null

def strings (ss : List String) : Value := .array (ss.map .string)

def isNull : Value → Bool
  | .null => true
  | _ => false

end Value

end ProblemBoard.Json
