/-!
# TOML values and tables

A table remembers how it came about, because that decides whether it may still grow: a
table under a header of its own may be defined once, a table that only headers below it
imply may still get its own header, one made by dotted keys grows by dotted keys only, and
an inline table never grows.
-/

namespace ProblemBoard.Toml

/-- How a table came about. -/
inductive Origin where
  /-- By a header of its own, or as the outermost table. -/
  | explicit
  /-- On the way of a header to a table below it. -/
  | implied
  /-- By a dotted key. -/
  | dotted
  /-- By braces. -/
  | inline
  deriving DecidableEq, Repr

/-- A TOML value. -/
inductive Value where
  | string (s : String)
  | integer (n : Int)
  /-- A floating-point number, of which only matters whether it is in range. -/
  | float (inRange : Bool)
  | bool (b : Bool)
  /-- A date, a time or both. -/
  | moment
  /-- An array in brackets. -/
  | array (items : List Value)
  /-- An array of tables, each under a header, the newest first. -/
  | tables (newestFirst : List Value)
  | table (origin : Origin) (members : List (String × Value))
  deriving Inhabited

abbrev Members := List (String × Value)

namespace Value

/-- Whether an integer fits the widest type there is. -/
def integerInRange : Int → Bool
  | .ofNat n => n < Nat.pow 2 128
  | .negSucc n => n < Nat.pow 2 127

mutual

def inRange : Value → Bool
  | .integer n => integerInRange n
  | .float ok => ok
  | .array items => allInRange items
  | .tables items => allInRange items
  | .table _ members => membersInRange members
  | _ => true

def allInRange : List Value → Bool
  | [] => true
  | v :: vs => v.inRange && allInRange vs

def membersInRange : List (String × Value) → Bool
  | [] => true
  | (_, v) :: ms => v.inRange && membersInRange ms

end

end Value

namespace Members

/-- The value of a key. -/
def get? (ms : Members) (key : String) : Option Value := (ms.find? (·.1 = key)).map (·.2)

/-- The members with a value for a key. -/
def put (ms : Members) (key : String) (v : Value) : Members :=
  match ms with
  | [] => [(key, v)]
  | (k, w) :: rest => if k = key then (k, v) :: rest else (k, w) :: put rest key v

/-! ## Growing

Each of these fails when the document defines something twice, or reaches into what must
not grow. -/

/-- Applies a change to the table that a path leads to.  A missing table on the way is made
with the given origin; dotted keys may not pass through tables with a header. -/
def change (fresh : Origin) (f : Origin → Members → Option Members) :
    List String → Origin → Members → Option Members
  | [], origin, ms => f origin ms
  | key :: path, _, ms =>
      match ms.get? key with
      | none => do
          let inner ← change fresh f path fresh []
          return ms.put key (.table fresh inner)
      | some (.table origin inner) =>
          if origin = .inline || (fresh = .dotted && origin = .explicit) then none
          else do
            let inner ← change fresh f path origin inner
            return ms.put key (.table origin inner)
      | some (.tables (.table origin inner :: older)) => do
          let inner ← change fresh f path origin inner
          return ms.put key (.tables (.table origin inner :: older))
      | some _ => none

/-- A header for a table: it must be new, or implied so far. -/
def openTable (key : String) (_ : Origin) (ms : Members) : Option Members :=
  match ms.get? key with
  | none => some (ms.put key (.table .explicit []))
  | some (.table .implied inner) => some (ms.put key (.table .explicit inner))
  | some _ => none

/-- A header for the next table of an array of tables. -/
def openNext (key : String) (_ : Origin) (ms : Members) : Option Members :=
  match ms.get? key with
  | none => some (ms.put key (.tables [.table .explicit []]))
  | some (.tables older) => some (ms.put key (.tables (.table .explicit [] :: older)))
  | some _ => none

/-- A new member of the table that dotted keys lead to.  That table must have been made by
dotted keys when there are any. -/
def define (viaDots : Bool) (key : String) (v : Value) (origin : Origin) (ms : Members) :
    Option Members :=
  if (origin = .dotted) != viaDots then none
  else
    match ms.get? key with
    | none => some (ms.put key v)
    | some _ => none

/-- A new member under a dotted key. -/
def assign (path : List String) (key : String) (v : Value) (origin : Origin) (ms : Members) :
    Option Members :=
  change .dotted (define (!path.isEmpty) key v) path origin ms

end Members

end ProblemBoard.Toml
