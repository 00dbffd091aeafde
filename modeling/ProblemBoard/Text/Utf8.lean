/-!
# UTF-8

One decoder with two uses.  `pieces` cuts bytes into characters and ill-formed pieces,
each ill-formed piece as long as it could still have begun a character.  A strict reader
refuses bytes with an ill-formed piece, a lenient one puts U+FFFD in its place.
-/

namespace ProblemBoard.Text.Utf8

/-- The bytes that may follow the first one of a character. -/
def isContinuation (b : UInt8) : Bool := 0x80 ≤ b && b ≤ 0xbf

/-- The second bytes that may follow the first byte of a three-byte character. -/
def second3 (b0 b1 : UInt8) : Bool :=
  if b0 = 0xe0 then 0xa0 ≤ b1 && b1 ≤ 0xbf
  else if b0 = 0xed then 0x80 ≤ b1 && b1 ≤ 0x9f
  else isContinuation b1

/-- The second bytes that may follow the first byte of a four-byte character. -/
def second4 (b0 b1 : UInt8) : Bool :=
  if b0 = 0xf0 then 0x90 ≤ b1 && b1 ≤ 0xbf
  else if b0 = 0xf4 then 0x80 ≤ b1 && b1 ≤ 0x8f
  else isContinuation b1

/-- The low six bits of a continuation byte. -/
def low6 (b : UInt8) : Nat := b.toNat % 64

def char2 (b0 b1 : UInt8) : Char := Char.ofNat (b0.toNat % 32 * 64 + low6 b1)

def char3 (b0 b1 b2 : UInt8) : Char :=
  Char.ofNat (b0.toNat % 16 * 4096 + low6 b1 * 64 + low6 b2)

def char4 (b0 b1 b2 b3 : UInt8) : Char :=
  Char.ofNat (b0.toNat % 8 * 262144 + low6 b1 * 4096 + low6 b2 * 64 + low6 b3)

/-- The characters of a byte sequence, `none` for each ill-formed piece. -/
def pieces : List UInt8 → List (Option Char)
  | [] => []
  | b0 :: r0 =>
      if b0 < 0x80 then some (Char.ofNat b0.toNat) :: pieces r0
      else if 0xc2 ≤ b0 && b0 ≤ 0xdf then
        match r0 with
        | [] => [none]
        | b1 :: r1 =>
            if isContinuation b1 then some (char2 b0 b1) :: pieces r1
            else none :: pieces (b1 :: r1)
      else if 0xe0 ≤ b0 && b0 ≤ 0xef then
        match r0 with
        | [] => [none]
        | b1 :: r1 =>
            if second3 b0 b1 then
              match r1 with
              | [] => [none]
              | b2 :: r2 =>
                  if isContinuation b2 then some (char3 b0 b1 b2) :: pieces r2
                  else none :: pieces (b2 :: r2)
            else none :: pieces (b1 :: r1)
      else if 0xf0 ≤ b0 && b0 ≤ 0xf4 then
        match r0 with
        | [] => [none]
        | b1 :: r1 =>
            if second4 b0 b1 then
              match r1 with
              | [] => [none]
              | b2 :: r2 =>
                  if isContinuation b2 then
                    match r2 with
                    | [] => [none]
                    | b3 :: r3 =>
                        if isContinuation b3 then some (char4 b0 b1 b2 b3) :: pieces r3
                        else none :: pieces (b3 :: r3)
                  else none :: pieces (b2 :: r2)
            else none :: pieces (b1 :: r1)
      else none :: pieces r0

/-- The text of a byte sequence, `none` when some piece is ill-formed. -/
def decode? (bytes : List UInt8) : Option String :=
  (pieces bytes).mapM id |>.map String.ofList

/-- The text of a byte sequence with U+FFFD for every ill-formed piece. -/
def decodeLossy (bytes : List UInt8) : String :=
  String.ofList ((pieces bytes).map (·.getD '\ufffd'))

def encode (s : String) : List UInt8 := s.toUTF8.toList

end ProblemBoard.Text.Utf8
