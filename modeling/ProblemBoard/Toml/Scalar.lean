import ProblemBoard.Text.Digit
import ProblemBoard.Toml.Value

/-!
# TOML scalars without quotes

Truth values, integers in four bases, floating-point numbers, dates and times.  Each is
recognized from the whole word that stands in the document.
-/

namespace ProblemBoard.Toml.Scalar

open ProblemBoard.Text (decimalValue doubleBound hexValue?)

/-! ## Integers and floating-point numbers -/

/-- Digits with single underscores between them, without the underscores. -/
def groups (isDigit : Char → Bool) : List Char → Option (List Char)
  | [] => none
  | c :: cs =>
      if !isDigit c then none
      else
        match cs with
        | [] => some [c]
        | '_' :: rest => (groups isDigit rest).map (c :: ·)
        | d :: rest => (groups isDigit (d :: rest)).map (c :: ·)

/-- Whether a digit belongs to a base. -/
def isDigitOf (base : Nat) (c : Char) : Bool :=
  match hexValue? c with
  | some v => v < base
  | none => false

/-- Digits of a base as a number. -/
def valueOf (base : Nat) (ds : List Char) : Nat :=
  ds.foldl (fun n c => base * n + (hexValue? c).getD 0) 0

/-- An integer in a base that is not ten. -/
def based (base : Nat) (cs : List Char) : Option Value :=
  (groups (isDigitOf base) cs).map fun ds => .integer (valueOf base ds)

/-- Decimal digits without a zero in front. -/
def plainDigits (cs : List Char) : Option (List Char) :=
  match groups Char.isDigit cs with
  | some ds => if ds.length > 1 && ds.head? = some '0' then none else some ds
  | none => none

/-- Splits at the first character with a property. -/
def splitAt (p : Char → Bool) (cs : List Char) : List Char × Option (List Char) :=
  match cs.dropWhile fun c => !p c with
  | [] => (cs, none)
  | _ :: rest => (cs.takeWhile (fun c => !p c), some rest)

/-- The exponent of a floating-point number behind its letter. -/
def exponent? (cs : List Char) : Option Int :=
  match cs with
  | '+' :: ds => (groups Char.isDigit ds).map fun ds => (decimalValue ds : Int)
  | '-' :: ds => (groups Char.isDigit ds).map fun ds => -(decimalValue ds : Int)
  | ds => (groups Char.isDigit ds).map fun ds => (decimalValue ds : Int)

/-- Whether a decimal number is too great for a double.  Exponents far out decide without
computing the power. -/
def tooGreat (ds : List Char) (exponent : Int) : Bool :=
  let m := decimalValue ds
  if m = 0 then false
  else if exponent > 400 then true
  else if exponent + ds.length < 300 then false
  else if 0 ≤ exponent then doubleBound ≤ m * Nat.pow 10 exponent.toNat
  else doubleBound * Nat.pow 10 (-exponent).toNat ≤ m

/-- A floating-point number without its sign. -/
def float? (cs : List Char) : Option Value := do
  let (mantissa, exponentText) := splitAt (fun c => c = 'e' || c = 'E') cs
  let exponent ←
    match exponentText with
    | none => pure 0
    | some es => exponent? es
  let (whole, fractionText) := splitAt (· = '.') mantissa
  let wholeDigits ← plainDigits whole
  match fractionText, exponentText with
  | none, none => none
  | none, some _ => return .float (!tooGreat wholeDigits exponent)
  | some fs, _ =>
      let fractionDigits ← groups Char.isDigit fs
      return .float (!tooGreat (wholeDigits ++ fractionDigits) (exponent - fractionDigits.length))

/-- A decimal number without its sign. -/
def unsigned? (negative : Bool) (cs : List Char) : Option Value :=
  if cs = ['i', 'n', 'f'] || cs = ['n', 'a', 'n'] then some (.float true)
  else
    match plainDigits cs with
    | some ds =>
        let n : Int := decimalValue ds
        some (.integer (if negative then -n else n))
    | none => float? cs

def number? : List Char → Option Value
  | '+' :: cs => unsigned? false cs
  | '-' :: cs => unsigned? true cs
  | '0' :: 'x' :: cs => based 16 cs
  | '0' :: 'o' :: cs => based 8 cs
  | '0' :: 'b' :: cs => based 2 cs
  | cs => unsigned? false cs

/-! ## Dates and times -/

def takeDigits (n : Nat) (cs : List Char) : Option (Nat × List Char) :=
  let ds := cs.take n
  if ds.length = n && ds.all Char.isDigit then some (decimalValue ds, cs.drop n) else none

def takeChar (c : Char) : List Char → Option (List Char)
  | d :: cs => if c = d then some cs else none
  | [] => none

def daysIn (year month : Nat) : Nat :=
  if month = 2 then
    if year % 4 = 0 && (year % 100 != 0 || year % 400 = 0) then 29 else 28
  else if month = 4 || month = 6 || month = 9 || month = 11 then 30
  else 31

/-- Takes a date off the front. -/
def takeDate (cs : List Char) : Option (List Char) := do
  let (year, cs) ← takeDigits 4 cs
  let cs ← takeChar '-' cs
  let (month, cs) ← takeDigits 2 cs
  let cs ← takeChar '-' cs
  let (day, cs) ← takeDigits 2 cs
  if 1 ≤ month && month ≤ 12 && 1 ≤ day && day ≤ daysIn year month then return cs else none

/-- Takes a time of day off the front; seconds and their fraction may be missing. -/
def takeTime (cs : List Char) : Option (List Char) := do
  let (hour, cs) ← takeDigits 2 cs
  let cs ← takeChar ':' cs
  let (minute, cs) ← takeDigits 2 cs
  if hour > 23 || minute > 59 then none
  else
    match cs with
    | ':' :: cs =>
        let (second, cs) ← takeDigits 2 cs
        if second > 60 then none
        else
          match cs with
          | '.' :: cs =>
              if (cs.takeWhile Char.isDigit).isEmpty then none
              else return cs.dropWhile Char.isDigit
          | _ => return cs
    | _ => return cs

/-- Whether what follows a time is an offset from universal time, or nothing. -/
def isOffset : List Char → Bool
  | [] => true
  | ['Z'] => true
  | ['z'] => true
  | sign :: cs =>
      (sign = '+' || sign = '-') &&
        match takeDigits 2 cs with
        | some (hour, ':' :: cs) =>
            match takeDigits 2 cs with
            | some (minute, []) => 60 * hour + minute ≤ 1440
            | _ => false
        | _ => false

/-- Whether a word is a date, a time or both. -/
def isMoment (cs : List Char) : Bool :=
  match takeDate cs with
  | some [] => true
  | some (sep :: rest) =>
      (sep = 'T' || sep = 't' || sep = ' ') &&
        match takeTime rest with
        | some offset => isOffset offset
        | none => false
  | none => takeTime cs = some []

/-! ## Words -/

/-- The value of a word. -/
def ofWord? (cs : List Char) : Option Value :=
  if cs = ['t', 'r', 'u', 'e'] then some (.bool true)
  else if cs = ['f', 'a', 'l', 's', 'e'] then some (.bool false)
  else
    match number? cs with
    | some v => some v
    | none => if isMoment cs then some .moment else none

end ProblemBoard.Toml.Scalar
