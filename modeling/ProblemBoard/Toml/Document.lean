import ProblemBoard.Toml.Scalar
import ProblemBoard.Toml.Value

/-!
# TOML documents

A document is read line by line: headers choose a table, other lines assign a value to a
key of it.  Arrays and inline tables may run over several lines and may end in a comma;
their nesting is bounded.  A document is read as a whole or not at all.

Every loop carries a bound computed from the text it reads.  A turn of a loop consumes at
least one character, so the bound is never the reason for an answer.
-/

namespace ProblemBoard.Toml

/-- A reader takes characters off the front of a text, or fails. -/
abbrev Reader := StateT (List Char) Option

namespace Reader

open ProblemBoard.Text (hexNumber?)

/-! ## Characters -/

def here : Reader (Option Char) := return (← get).head?

def drop (n : Nat) : Reader Unit := modify (List.drop n)

def expect (c : Char) : Reader Unit := do
  if (← here) = some c then drop 1 else failure

/-- Skips blanks inside a line. -/
def blanks : Reader Unit := modify (List.dropWhile fun c => c = ' ' || c = '\t')

/-- Control characters, which no part of a document but a line end may hold. -/
def isControl (c : Char) : Bool := (c.toNat < 0x20 && c != '\t') || c.toNat = 0x7f

/-- Takes a line end when one stands here. -/
def newline : Reader Bool := do
  match ← get with
  | '\n' :: rest => set rest; return true
  | '\r' :: '\n' :: rest => set rest; return true
  | _ => return false

/-- Skips a comment when one stands here. -/
def comment : Reader Unit := do
  match ← get with
  | '#' :: rest => set (rest.dropWhile fun c => !isControl c)
  | _ => pure ()

/-- Skips blanks, comments and line ends. -/
def gap : Nat → Reader Unit
  | 0 => failure
  | fuel + 1 => do
      blanks
      comment
      if ← newline then gap fuel

/-- Skips blanks, comments and line ends. -/
def skipGap : Reader Unit := do gap ((← get).length + 1)

/-! ## Strings -/

/-- The character of an escape with `n` hexadecimal digits. -/
def hexChar (n : Nat) : Reader Char := do
  let ds := (← get).take n
  if ds.length = n then
    match hexNumber? ds with
    | some v =>
        if v.isValidChar then
          drop n
          return Char.ofNat v
        else failure
    | none => failure
  else failure

/-- The character of an escape behind its backslash. -/
def escape : Reader Char := do
  let c ← here
  drop 1
  match c with
  | some 'b' => return '\x08'
  | some 't' => return '\t'
  | some 'n' => return '\n'
  | some 'f' => return '\x0c'
  | some 'r' => return '\r'
  | some 'e' => return '\x1b'
  | some '"' => return '"'
  | some '\\' => return '\\'
  | some 'x' => hexChar 2
  | some 'u' => hexChar 4
  | some 'U' => hexChar 8
  | _ => failure

/-- The rest of a string of one line behind its opening quote. -/
def lineString (quote : Char) : Nat → List Char → Reader String
  | 0, _ => failure
  | fuel + 1, acc => do
      match ← here with
      | none => failure
      | some c =>
          if c = quote then
            drop 1
            return String.ofList acc.reverse
          else if c = '\\' && quote = '"' then
            drop 1
            let e ← escape
            lineString quote fuel (e :: acc)
          else if isControl c then failure
          else
            drop 1
            lineString quote fuel (c :: acc)

/-- Whether a backslash here is the last visible character of its line. -/
def endsLine (cs : List Char) : Bool :=
  match cs.dropWhile fun c => c = ' ' || c = '\t' with
  | '\n' :: _ => true
  | '\r' :: '\n' :: _ => true
  | _ => false

/-- Skips blanks and line ends. -/
def skipSpace : Reader Unit :=
  modify (List.dropWhile fun c => c = ' ' || c = '\t' || c = '\n' || c = '\r')

/-- The rest of a string of several lines behind its opening quotes.  Up to two quotes may
stand right in front of the closing ones. -/
def blockString (quote : Char) : Nat → List Char → Reader String
  | 0, _ => failure
  | fuel + 1, acc => do
      let cs ← get
      match cs with
      | [] => failure
      | c :: rest =>
          if c = quote then
            let run := min (cs.takeWhile (· = quote)).length 5
            drop run
            if 3 ≤ run then
              return String.ofList ((List.replicate (run - 3) quote ++ acc).reverse)
            else blockString quote fuel (List.replicate run quote ++ acc)
          else if c = '\\' && quote = '"' then
            drop 1
            if endsLine rest then
              skipSpace
              blockString quote fuel acc
            else
              let e ← escape
              blockString quote fuel (e :: acc)
          else if c = '\n' then
            drop 1
            blockString quote fuel (c :: acc)
          else if c = '\r' && rest.head? = some '\n' then
            drop 2
            blockString quote fuel ('\n' :: '\r' :: acc)
          else if isControl c then failure
          else
            drop 1
            blockString quote fuel (c :: acc)

/-- A string of one line behind its opening quote. -/
def lineBody (quote : Char) : Reader String := do lineString quote ((← get).length + 1) []

/-- A string behind its opening quote. -/
def stringBody (quote : Char) : Reader String := do
  match ← get with
  | a :: b :: _ =>
      if a = quote && b = quote then
        drop 2
        let _ ← newline
        blockString quote ((← get).length + 1) []
      else lineBody quote
  | _ => lineBody quote

/-! ## Keys -/

def isKeyChar (c : Char) : Bool := c.isAlphanum || c = '_' || c = '-'

/-- One part of a key. -/
def keyPart : Reader String := do
  match ← here with
  | some '"' => drop 1; lineBody '"'
  | some '\'' => drop 1; lineBody '\''
  | _ =>
      let cs ← get
      let key := cs.takeWhile isKeyChar
      if key.isEmpty then failure
      else
        drop key.length
        return String.ofList key

/-- The parts of a key behind its first part. -/
def moreParts : Nat → Reader (List String)
  | 0 => failure
  | fuel + 1 => do
      blanks
      if (← here) = some '.' then
        drop 1
        blanks
        let part ← keyPart
        return part :: (← moreParts fuel)
      else return []

/-- A key: its parts but the last, and the last. -/
def key : Reader (List String × String) := do
  blanks
  let first ← keyPart
  let parts := first :: (← moreParts ((← get).length + 1))
  match parts.getLast? with
  | some last => return (parts.dropLast, last)
  | none => failure

/-! ## Values -/

/-- The characters that end a word. -/
def endsWord (c : Char) : Bool := isControl c || [' ', '\t', ',', ']', '\x7d', '#', '='].contains c

/-- A value that is written as a word.  A time may follow its date behind a blank. -/
def word : Reader Value := do
  let cs ← get
  let first := cs.takeWhile fun c => !endsWord c
  drop first.length
  let text ←
    match Scalar.takeDate first, ← get with
    | some [], ' ' :: d :: rest =>
        if d.isDigit then
          let second := (d :: rest).takeWhile fun c => !endsWord c
          drop (1 + second.length)
          pure (first ++ ' ' :: second)
        else pure first
    | _, _ => pure first
  match Scalar.ofWord? text with
  | some v => return v
  | none => failure

/-- The items of an array behind its opening bracket. -/
def arrayItems (value : Reader Value) : Nat → List Value → Reader Value
  | 0, _ => failure
  | fuel + 1, acc => do
      skipGap
      if (← here) = some ']' then
        drop 1
        return .array acc.reverse
      else
        let v ← value
        skipGap
        if (← here) = some ',' then
          drop 1
          arrayItems value fuel (v :: acc)
        else
          expect ']'
          return .array (v :: acc).reverse

/-- The members of an inline table behind its opening brace. -/
def tableItems (value : Reader Value) : Nat → Members → Reader Value
  | 0, _ => failure
  | fuel + 1, acc => do
      skipGap
      if (← here) = some '\x7d' then
        drop 1
        return .table .inline acc
      else
        let (path, last) ← key
        blanks
        expect '='
        blanks
        let v ← value
        match Members.assign path last v .inline acc with
        | none => failure
        | some acc =>
            skipGap
            if (← here) = some ',' then
              drop 1
              tableItems value fuel acc
            else
              expect '\x7d'
              return .table .inline acc

/-- A value, with readers for arrays and inline tables behind their opening character. -/
def valueBy (ofArray ofTable : Reader Value) : Reader Value := do
  match ← here with
  | some '"' => drop 1; return .string (← stringBody '"')
  | some '\'' => drop 1; return .string (← stringBody '\'')
  | some '[' => drop 1; ofArray
  | some '\x7b' => drop 1; ofTable
  | _ => word

/-- A value nested at most `room` levels deep. -/
def valueWithin : Nat → Reader Value
  | 0 => valueBy failure failure
  | room + 1 =>
      valueBy (do arrayItems (valueWithin room) ((← get).length + 1) [])
        (do tableItems (valueWithin room) ((← get).length + 1) [])

/-- The levels of nesting a value may have. -/
def maxDepth : Nat := 80

/-! ## Lines -/

/-- A document as far as it was read: its outermost table and the path of the table that
lines assign to. -/
structure Draft where
  /-- The outermost table. -/
  members : Members
  /-- The path of the table that lines assign to. -/
  current : List String

/-- Finds the table that lines assign to and changes it. -/
def Draft.edit (d : Draft) (f : Origin → Members → Option Members) : Option Draft := do
  let members ← Members.change .implied f d.current .explicit d.members
  return { d with members }

/-- A header behind its first bracket. -/
def header (d : Draft) : Reader Draft := do
  let several := (← here) = some '['
  if several then drop 1
  let (path, last) ← key
  blanks
  expect ']'
  if several then expect ']'
  match Members.change .implied (if several then Members.openNext last else Members.openTable last)
      path .explicit d.members with
  | some members => return ⟨members, path ++ [last]⟩
  | none => failure

/-- A line that assigns a value to a key. -/
def assignment (d : Draft) : Reader Draft := do
  let (path, last) ← key
  blanks
  expect '='
  blanks
  let v ← valueWithin maxDepth
  match d.edit (Members.assign path last v) with
  | some d => return d
  | none => failure

/-- The lines of a document. -/
def documentLines : Nat → Draft → Reader Members
  | 0, _ => failure
  | fuel + 1, d => do
      skipGap
      match ← here with
      | none => return d.members
      | some c =>
          let d ←
            if c = '[' then do
              drop 1
              header d
            else assignment d
          blanks
          comment
          let ended := (← get).isEmpty
          if !ended then
            if !(← newline) then failure
          documentLines fuel d

/-- The outermost table of a document.  A byte order mark in front of it is dropped. -/
def document (text : String) : Option Members :=
  let cs := text.toList
  let cs := if cs.head? = some '\ufeff' then cs.tail else cs
  (documentLines (cs.length + 1) ⟨[], []⟩).run' cs

end Reader

end ProblemBoard.Toml
