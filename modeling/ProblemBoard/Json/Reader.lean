import ProblemBoard.Json.Number
import ProblemBoard.Json.Value
import ProblemBoard.Text.Digit

/-!
# Reading JSON into a type

A text is read from left to right straight into the type that is wanted, so the first
fault met decides: malformed text, an early end, or well-formed text of another type.
A wrong type is therefore reported before anything behind it is looked at.

Values of unknown fields are skipped: only their grammar is checked.  Values that are
kept are read in full, so their strings must hold no lone surrogate, their numbers must be
in range, and their nesting is bounded.

A record is an object of named fields or an array of the same fields in their order.

Every loop carries a bound computed from the text it reads.  A turn of a loop consumes at
least one character, so the bound is never the reason for an answer.
-/

namespace ProblemBoard.Json

/-- Why a text is not read. -/
inductive Fault where
  /-- The text is not JSON, or it holds a value out of range. -/
  | malformed
  /-- The text ended early. -/
  | truncated
  /-- The text is JSON of another shape. -/
  | mismatch
  deriving DecidableEq, Repr

/-- A reader takes characters off the front of a text. -/
abbrev Reader := StateT (List Char) (Except Fault)

namespace Reader

open ProblemBoard.Text (hexNumber? maxWord64)

/-! ## Characters -/

/-- White space of the format. -/
def isSpace (c : Char) : Bool := c = ' ' || c = '\t' || c = '\n' || c = '\r'

/-- Skips white space and shows the next character without taking it. -/
def look : Reader (Option Char) := do
  let cs := (← get).dropWhile isSpace
  set cs
  return cs.head?

/-- Shows the next character without skipping white space. -/
def here : Reader (Option Char) := return (← get).head?

def drop : Reader Unit := modify List.tail

/-- Takes the digits at the front. -/
def digits : Reader (List Char) := do
  let cs ← get
  set (cs.dropWhile Char.isDigit)
  return cs.takeWhile Char.isDigit

/-- Takes the given characters. -/
def expect : List Char → Reader Unit
  | [] => pure ()
  | e :: es => do
      match ← here with
      | none => throw .truncated
      | some c => if c = e then drop; expect es else throw .malformed

/-! ## Strings -/

/-- The characters that stand for themselves or for a control character behind a
backslash. -/
def simpleEscape : Char → Option Char
  | '"' => some '"'
  | '\\' => some '\\'
  | '/' => some '/'
  | 'b' => some '\x08'
  | 'f' => some '\x0c'
  | 'n' => some '\n'
  | 'r' => some '\r'
  | 't' => some '\t'
  | _ => none

/-- Four hexadecimal digits.  When the text has fewer than four bytes left, it ended. -/
def hexUnit : Reader Nat := do
  match ← get with
  | a :: b :: c :: d :: rest =>
      match hexNumber? [a, b, c, d] with
      | some n => set rest; return n
      | none => throw .malformed
  | short =>
      if (String.ofList short).utf8ByteSize ≥ 4 then throw .malformed else throw .truncated

/-- The second half of a surrogate pair, behind the first half `high`. -/
def lowSurrogate (high : Nat) : Reader Char := do
  expect ['\\', 'u']
  let low ← hexUnit
  if 0xdc00 ≤ low && low ≤ 0xdfff then
    return Char.ofNat (0x10000 + (high - 0xd800) * 0x400 + (low - 0xdc00))
  else throw .malformed

/-- The character of a `\u` escape, which may be a pair of surrogates. -/
def unicodeEscape : Reader Char := do
  let n ← hexUnit
  if 0xdc00 ≤ n && n ≤ 0xdfff then throw .malformed
  else if 0xd800 ≤ n && n ≤ 0xdbff then lowSurrogate n
  else return Char.ofNat n

/-- The rest of a string behind its opening quote; `acc` holds what was read, in reverse. -/
def stringRest : Nat → List Char → Reader String
  | 0, _ => throw .truncated
  | fuel + 1, acc => do
      match ← here with
      | none => throw .truncated
      | some '"' => drop; return String.ofList acc.reverse
      | some '\\' =>
          drop
          match ← here with
          | none => throw .truncated
          | some e =>
              drop
              match simpleEscape e with
              | some c => stringRest fuel (c :: acc)
              | none =>
                  if e = 'u' then
                    let c ← unicodeEscape
                    stringRest fuel (c :: acc)
                  else throw .malformed
      | some c =>
          if c.toNat < 0x20 then throw .malformed
          else
            drop
            stringRest fuel (c :: acc)

/-- The rest of a string behind its opening quote. -/
def stringBody : Reader String := do stringRest ((← get).length + 1) []

/-- Skips the rest of a string; its escapes need not denote characters. -/
def skipStringRest : Nat → Reader Unit
  | 0 => throw .truncated
  | fuel + 1 => do
      match ← here with
      | none => throw .truncated
      | some '"' => drop
      | some '\\' =>
          drop
          match ← here with
          | none => throw .truncated
          | some e =>
              drop
              if (simpleEscape e).isSome then skipStringRest fuel
              else if e = 'u' then
                let _ ← hexUnit
                skipStringRest fuel
              else throw .malformed
      | some c =>
          if c.toNat < 0x20 then throw .malformed
          else
            drop
            skipStringRest fuel

/-- Skips the rest of a string behind its opening quote. -/
def skipStringBody : Reader Unit := do skipStringRest ((← get).length + 1)

/-! ## Numbers -/

/-- A number with point or exponent, refused when it is too great. -/
def finishFraction (s : Nat) (exponent : Int) : Reader Value :=
  if Number.tooGreat s exponent then throw .malformed else return .fraction

/-- The exponent of a number behind its letter. -/
def exponentRest (s : Nat) (start : Int) : Reader Value := do
  let sign ← here
  let positive := sign != some '-'
  if sign = some '-' || sign = some '+' then drop
  match ← here with
  | none => throw .truncated
  | some c =>
      if !c.isDigit then throw .malformed
      else
        let e := Text.decimalValue (← digits)
        if e > 2147483647 then
          if s != 0 && positive then throw .malformed else return .fraction
        else finishFraction s (if positive then start + e else start - e)

/-- What follows the digits before the point. -/
def numberRest (negative : Bool) (s extra : Nat) : Reader Value := do
  match ← here with
  | some '.' =>
      drop
      let ds ← digits
      if ds.isEmpty then
        if (← here).isNone then throw .truncated else throw .malformed
      else
        let (s, count) := Number.absorbFraction s ds
        let exponent : Int := extra - count
        match ← here with
        | some 'e' => drop; exponentRest s exponent
        | some 'E' => drop; exponentRest s exponent
        | _ => finishFraction s exponent
  | some 'e' => drop; exponentRest s extra
  | some 'E' => drop; exponentRest s extra
  | _ => if extra = 0 then return Number.whole negative s else finishFraction s extra

/-- A number behind its sign. -/
def number (negative : Bool) : Reader Value := do
  match ← here with
  | none => throw .truncated
  | some c =>
      if !c.isDigit then throw .malformed
      else
        let ds ← digits
        if c = '0' && ds.length > 1 then throw .malformed
        else
          let (s, extra) := Number.absorbWhole ds
          numberRest negative s extra

/-- Skips the exponent of a number behind its letter. -/
def skipExponent : Reader Unit := do
  let sign ← here
  if sign = some '-' || sign = some '+' then drop
  if (← digits).isEmpty then throw .malformed

/-- Skips a number behind its sign.  An early end is a malformed number. -/
def skipNumber : Reader Unit := do
  let ds ← digits
  if ds.isEmpty || (ds.head? = some '0' && ds.length > 1) then throw .malformed
  match ← here with
  | some '.' =>
      drop
      if (← digits).isEmpty then throw .malformed
      match ← here with
      | some 'e' => drop; skipExponent
      | some 'E' => drop; skipExponent
      | _ => pure ()
  | some 'e' => drop; skipExponent
  | some 'E' => drop; skipExponent
  | _ => pure ()

/-! ## Skipping values -/

/-- What is still open around a value that is skipped. -/
inductive Frame where
  | array
  | object
  deriving DecidableEq

/-- The character that closes a frame. -/
def Frame.closer : Frame → Char
  | .array => ']'
  | .object => '}'

/-- Skips a value that is neither array nor object. -/
def skipScalar (c : Char) : Reader Unit :=
  match c with
  | 'n' => expect ['n', 'u', 'l', 'l']
  | 't' => expect ['t', 'r', 'u', 'e']
  | 'f' => expect ['f', 'a', 'l', 's', 'e']
  | '"' => do drop; skipStringBody
  | '-' => do drop; skipNumber
  | c => if c.isDigit then skipNumber else throw .malformed

/-- Skips a key and the colon behind it. -/
def skipKey : Reader Unit := do
  match ← look with
  | none => throw .truncated
  | some '"' => drop; skipStringBody
  | some _ => throw .malformed
  match ← look with
  | none => throw .truncated
  | some ':' => drop
  | some _ => throw .malformed

/-- Where a skipping reader stands inside its frames. -/
inductive Place where
  /-- In front of a value. -/
  | value
  /-- Behind an opening bracket. -/
  | opened
  /-- Behind a value. -/
  | closed

/-- Skips up to the end of the outermost value, inside the given frames. -/
def skipWithin : Nat → Place → List Frame → Reader Unit
  | 0, _, _ => throw .truncated
  | fuel + 1, .value, frames => do
      match ← look with
      | none => throw .truncated
      | some '[' => drop; skipWithin fuel .opened (.array :: frames)
      | some '\x7b' => drop; skipWithin fuel .opened (.object :: frames)
      | some c => skipScalar c; skipWithin fuel .closed frames
  | _ + 1, _, [] => pure ()
  | fuel + 1, place, frame :: frames => do
      match ← look with
      | none => throw .truncated
      | some c =>
          if c = frame.closer then
            drop
            skipWithin fuel .closed frames
          else
            match place with
            | .closed => if c = ',' then drop else throw .malformed
            | _ => pure ()
            if frame = .object then skipKey
            skipWithin fuel .value (frame :: frames)

/-- Skips a value. -/
def skipValue : Reader Unit := do skipWithin (2 * (← get).length + 2) .value []

/-! ## Faults of type -/

/-- The fault of a value of the wrong type.  A scalar is read first, so a fault in its text
wins. -/
def wrongType {α : Type} : Reader α := do
  match ← look with
  | none => throw .truncated
  | some 'n' => expect ['n', 'u', 'l', 'l']; throw .mismatch
  | some 't' => expect ['t', 'r', 'u', 'e']; throw .mismatch
  | some 'f' => expect ['f', 'a', 'l', 's', 'e']; throw .mismatch
  | some '"' => drop; let _ ← stringBody; throw .mismatch
  | some '-' => drop; let _ ← number true; throw .mismatch
  | some '[' => throw .mismatch
  | some '\x7b' => throw .mismatch
  | some c => if c.isDigit then let _ ← number false; throw .mismatch else throw .malformed

/-! ## Scalars -/

def string : Reader String := do
  match ← look with
  | some '"' => drop; stringBody
  | _ => wrongType

def bool : Reader Bool := do
  match ← look with
  | some 't' => expect ['t', 'r', 'u', 'e']; return true
  | some 'f' => expect ['f', 'a', 'l', 's', 'e']; return false
  | _ => wrongType

/-- A natural number of at most `limit`. -/
def nat (limit : Nat) : Reader Nat := do
  let v ← match ← look with
    | some '-' => do drop; number true
    | some c => if c.isDigit then number false else wrongType
    | none => throw .truncated
  match v with
  | .integer n => if 0 ≤ n && n ≤ limit then return n.toNat else throw .mismatch
  | _ => throw .mismatch

/-- A value or `null`. -/
def option {α : Type} (r : Reader α) : Reader (Option α) := do
  match ← look with
  | some 'n' => expect ['n', 'u', 'l', 'l']; return none
  | _ => return some (← r)

/-! ## Arrays and objects -/

/-- Whether another element follows in an array; a comma in front of it is taken. -/
def moreElements (first : Bool) : Reader Bool := do
  match ← look with
  | none => throw .truncated
  | some ']' => return false
  | some c =>
      if first then return true
      else if c = ',' then
        drop
        match ← look with
        | some ']' => throw .malformed
        | some _ => return true
        | none => throw .truncated
      else throw .malformed

def closeArray : Reader Unit := do
  match ← look with
  | some ']' => drop
  | some _ => throw .malformed
  | none => throw .truncated

/-- The elements of an array behind its opening bracket, up to its closing one. -/
def elements {α : Type} (r : Reader α) : Nat → Bool → List α → Reader (List α)
  | 0, _, _ => throw .truncated
  | fuel + 1, first, acc => do
      if ← moreElements first then
        let a ← r
        elements r fuel false (a :: acc)
      else return acc.reverse

def list {α : Type} (r : Reader α) : Reader (List α) := do
  match ← look with
  | some '[' =>
      drop
      let items ← elements r ((← get).length + 1) true []
      closeArray
      return items
  | _ => wrongType

/-- The next key of an object, `none` at its end; a comma in front of it is taken. -/
def nextKey (first : Bool) : Reader (Option String) := do
  match ← look with
  | none => throw .truncated
  | some '}' => return none
  | some c =>
      let c ←
        if first then pure (some c)
        else if c = ',' then do drop; look
        else throw .malformed
      match c with
      | some '"' => drop; return some (← stringBody)
      | some _ => throw .malformed
      | none => throw .truncated

def colon : Reader Unit := do
  match ← look with
  | some ':' => drop
  | some _ => throw .malformed
  | none => throw .truncated

def closeObject : Reader Unit := do
  match ← look with
  | some '}' => drop
  | some _ => throw .malformed
  | none => throw .truncated

/-- The members of an object behind its opening brace, up to its closing one. -/
def members {α : Type} (r : Reader α) : Nat → Bool → List (String × α) →
    Reader (List (String × α))
  | 0, _, _ => throw .truncated
  | fuel + 1, first, acc => do
      match ← nextKey first with
      | none => return acc.reverse
      | some key =>
          colon
          let a ← r
          members r fuel false ((key, a) :: acc)

/-- An object whose keys are not known beforehand. -/
def object {α : Type} (r : Reader α) : Reader (List (String × α)) := do
  match ← look with
  | some '\x7b' =>
      drop
      let ms ← members r ((← get).length + 1) true []
      closeObject
      return ms
  | _ => wrongType

/-! ## Values that are kept -/

/-- A value of any type, with readers for arrays and objects. -/
def valueBy (ofArray ofObject : Reader Value) : Reader Value := do
  match ← look with
  | none => throw .truncated
  | some 'n' => expect ['n', 'u', 'l', 'l']; return .null
  | some 't' => expect ['t', 'r', 'u', 'e']; return .bool true
  | some 'f' => expect ['f', 'a', 'l', 's', 'e']; return .bool false
  | some '"' => drop; return .string (← stringBody)
  | some '-' => drop; number true
  | some '[' => ofArray
  | some '\x7b' => ofObject
  | some c => if c.isDigit then number false else throw .malformed

/-- A value of any type, nested at most `room` levels deep. -/
def valueWithin : Nat → Reader Value
  | 0 => valueBy (throw .malformed) (throw .malformed)
  | room + 1 =>
      valueBy (do return .array (← list (valueWithin room)))
        (do return .object (← object (valueWithin room)))

/-- The levels of nesting a text may have. -/
def maxDepth : Nat := 127

/-! ## Records -/

/-- A field of a record: its name, whether it must be given, and how its value is put into
the record. -/
structure Field (σ : Type) where
  name : String
  /-- Whether the field must be given. -/
  required : Bool
  /-- Reads the value into the record. -/
  read : σ → Reader σ

/-- The fields of a record written as an object.  A field given twice is a fault of type,
unknown fields are skipped. -/
def recordMembers {σ : Type} (fields : List (Field σ)) : Nat → Bool → List String → σ → Reader σ
  | 0, _, _, _ => throw .truncated
  | fuel + 1, first, seen, record => do
      match ← nextKey first with
      | none =>
          if fields.all fun f => !f.required || seen.contains f.name then return record
          else throw .mismatch
      | some key =>
          match fields.find? (·.name = key) with
          | none =>
              colon
              skipValue
              recordMembers fields fuel false seen record
          | some f =>
              if seen.contains key then throw .mismatch
              else
                colon
                let record ← f.read record
                recordMembers fields fuel false (key :: seen) record

/-- The fields of a record written as an array, in their order. -/
def recordElements {σ : Type} : List (Field σ) → Bool → σ → Reader σ
  | [], _, record => return record
  | f :: fs, first, record => do
      if ← moreElements first then
        let record ← f.read record
        recordElements fs false record
      else if f.required then throw .mismatch
      else recordElements fs first record

/-- A record with the given fields, starting from its defaults. -/
def record {σ : Type} (fields : List (Field σ)) (defaults : σ) : Reader σ := do
  match ← look with
  | some '[' =>
      drop
      let r ← recordElements fields true defaults
      closeArray
      return r
  | some '\x7b' =>
      drop
      let r ← recordMembers fields ((← get).length + 1) true [] defaults
      closeObject
      return r
  | _ => wrongType

/-! ## Whole texts -/

/-- Reads a whole text. -/
def run {α : Type} (r : Reader α) (text : String) : Except Fault α := do
  let (a, rest) ← StateT.run r text.toList
  if rest.all isSpace then return a else throw .malformed

end Reader

end ProblemBoard.Json
