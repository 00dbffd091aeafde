/-!
# Decimal digits and numbers

`isDigit` is the Unicode category of decimal digits.  A number is read from ASCII digits
only, so a text may consist of digits and still be no number.  `readDecimal_toDigits` says that
the digits of a number are read as that number.
-/

namespace ProblemBoard.Text

/-- The first code point of each run of ten decimal digits, in order. -/
def digitZeros : List Nat :=
  [0x30, 0x660, 0x6f0, 0x7c0, 0x966, 0x9e6, 0xa66, 0xae6, 0xb66, 0xbe6, 0xc66, 0xce6, 0xd66,
   0xde6, 0xe50, 0xed0, 0xf20, 0x1040, 0x1090, 0x17e0, 0x1810, 0x1946, 0x19d0, 0x1a80, 0x1a90,
   0x1b50, 0x1bb0, 0x1c40, 0x1c50, 0xa620, 0xa8d0, 0xa900, 0xa9d0, 0xa9f0, 0xaa50, 0xabf0,
   0xff10, 0x104a0, 0x10d30, 0x10d40, 0x11066, 0x110f0, 0x11136, 0x111d0, 0x112f0, 0x11450,
   0x114d0, 0x11650, 0x116c0, 0x116d0, 0x116da, 0x11730, 0x118e0, 0x11950, 0x11bf0, 0x11c50,
   0x11d50, 0x11da0, 0x11f50, 0x16130, 0x16a60, 0x16ac0, 0x16b50, 0x16d70, 0x1ccf0, 0x1d7ce,
   0x1d7d8, 0x1d7e2, 0x1d7ec, 0x1d7f6, 0x1e140, 0x1e2f0, 0x1e4f0, 0x1e5f1, 0x1e950, 0x1fbf0]

/-- The Unicode category of decimal digits. -/
def isDigit (c : Char) : Bool :=
  c.isDigit || (128 ≤ c.toNat && digitZeros.any fun z => z ≤ c.toNat && c.toNat < z + 10)

theorem isDigit_of_ascii {c : Char} (h : c.isDigit = true) : isDigit c = true := by
  simp [isDigit, h]

/-- A run of digits that is not empty. -/
def IsNumeral (cs : List Char) : Prop := cs ≠ [] ∧ ∀ c ∈ cs, isDigit c = true

instance (cs : List Char) : Decidable (IsNumeral cs) :=
  inferInstanceAs (Decidable (cs ≠ [] ∧ ∀ c ∈ cs, isDigit c = true))

theorem isNumeral_toDigits (n : Nat) : IsNumeral (Nat.toDigits 10 n) :=
  ⟨Nat.toDigits_ne_nil, fun _ hc =>
    isDigit_of_ascii (Nat.isDigit_of_mem_toDigits (by decide) (by decide) hc)⟩

def digitValue (c : Char) : Nat := c.toNat - '0'.toNat

/-- The value of a run of ASCII digits in base ten. -/
def decimalValue (cs : List Char) : Nat := cs.foldl (fun n c => 10 * n + digitValue c) 0

/-- A non-empty run of ASCII digits as a number of at most `limit`. -/
def readDecimal (limit : Nat) (cs : List Char) : Option Nat :=
  if cs.isEmpty || !cs.all Char.isDigit then none
  else
    let n := decimalValue cs
    if n ≤ limit then some n else none

theorem decimalValue_toDigits (n : Nat) : decimalValue (Nat.toDigits 10 n) = n :=
  Nat.ofDigitChars_eq_foldl.symm.trans Nat.ofDigitChars_ten_toDigits

theorem readDecimal_toDigits {limit n : Nat} (h : n ≤ limit) :
    readDecimal limit (Nat.toDigits 10 n) = some n := by
  have hempty : (Nat.toDigits 10 n).isEmpty = false := by simp [Nat.toDigits_ne_nil]
  have hall : (Nat.toDigits 10 n).all Char.isDigit = true :=
    List.all_eq_true.2 fun _ hc => Nat.isDigit_of_mem_toDigits (by decide) (by decide) hc
  simp [readDecimal, hempty, hall, decimalValue_toDigits, h]

theorem le_of_readDecimal {limit n : Nat} {cs : List Char} (h : readDecimal limit cs = some n) :
    n ≤ limit := by
  unfold readDecimal at h
  dsimp only at h
  split at h
  · cases h
  · split at h
    · next hle => exact Option.some.inj h ▸ hle
    · cases h

/-- A number of at most `limit`, which may carry a plus sign. -/
def readSignedDecimal (limit : Nat) : List Char → Option Nat
  | '+' :: cs => readDecimal limit cs
  | cs => readDecimal limit cs

def maxWord32 : Nat := 4294967295

def maxWord64 : Nat := 18446744073709551615

/-- The least number that rounds beyond the greatest finite double: half a unit above it. -/
def doubleBound : Nat := Nat.pow 2 1024 - Nat.pow 2 970

/-- The value of a hexadecimal digit. -/
def hexValue? (c : Char) : Option Nat :=
  if '0' ≤ c && c ≤ '9' then some (c.toNat - '0'.toNat)
  else if 'a' ≤ c && c ≤ 'f' then some (c.toNat - 'a'.toNat + 10)
  else if 'A' ≤ c && c ≤ 'F' then some (c.toNat - 'A'.toNat + 10)
  else none

/-- Hexadecimal digits as a number, `none` when one of them is none. -/
def hexNumber? (cs : List Char) : Option Nat :=
  cs.foldlM (fun n c => (hexValue? c).map (16 * n + ·)) 0

end ProblemBoard.Text
