import ProblemBoard.Json.Value
import ProblemBoard.Text.Digit

/-!
# JSON numbers

A number is an integer when it has neither point nor exponent and fits 64 bits.  Every
other number stands for a binary floating-point number of 64 bits, and one too great for
that is refused.  The test is exact: `toDouble` rounds to 53 significant bits, half to
even, and the bound stands half a unit above the greatest finite value.

While digits are read, at most 64 bits of them are kept; further ones only count as
powers of ten before the point and are dropped behind it.
-/

namespace ProblemBoard.Json.Number

open ProblemBoard.Text (digitValue doubleBound maxWord64)

/-- A natural number rounded to 53 significant bits, half to even. -/
def toDouble (n : Nat) : Nat :=
  if n < Nat.pow 2 53 then n
  else
    let unit := Nat.pow 2 (n.log2 - 52)
    let q := n / unit
    let r := n % unit
    if 2 * r > unit || (2 * r = unit && q % 2 = 1) then (q + 1) * unit else q * unit

/-- Whether `significand` times the power of ten with `exponent` is too great for a double. -/
def tooGreat (significand : Nat) (exponent : Int) : Bool :=
  if exponent < 0 then false
  else if exponent > 308 then significand != 0
  else doubleBound ≤ toDouble significand * toDouble (Nat.pow 10 exponent.toNat)

/-- The digits before the point: those that fit 64 bits, and how many were left over. -/
def absorbWhole (ds : List Char) : Nat × Nat :=
  ds.foldl
    (fun (s, extra) c =>
      if extra > 0 || 10 * s + digitValue c > maxWord64 then (s, extra + 1)
      else (10 * s + digitValue c, 0))
    (0, 0)

/-- The digits behind the point, added to a significand while it fits 64 bits, and how many
were added. -/
def absorbFraction (s : Nat) (ds : List Char) : Nat × Nat :=
  let r := ds.foldl
    (fun (s, count, full) c =>
      if full || 10 * s + digitValue c > maxWord64 then (s, count, true)
      else (10 * s + digitValue c, count + 1, false))
    (s, 0, false)
  (r.1, r.2.1)

/-- The value of an integer of 64 bits.  A negative one needs a sign bit, and a negative
zero is no integer. -/
def whole (negative : Bool) (s : Nat) : Value :=
  if negative then
    match s with
    | 0 => .fraction
    | n + 1 => if n < Nat.pow 2 63 then .integer (.negSucc n) else .fraction
  else .integer (.ofNat s)

end ProblemBoard.Json.Number
