import ProblemBoard.Path.Basic
import ProblemBoard.Text.Utf8

/-!
# File addresses

The `file:` address of an absolute path.  The bytes of each component are written as they
are, or as a percent sign and two hexadecimal digits when they could be taken for
something else.  A relative path has no address.
-/

namespace ProblemBoard.Path

/-- The ASCII characters that a path segment of a `file:` address cannot hold as they are. -/
def urlReserved : List Char :=
  [' ', '"', '<', '>', '#', '?', '\x60', '\x7b', '\x7d', '/', '%', '\\']

/-- Whether a byte of a path segment is written as it is. -/
def urlPlain (b : UInt8) : Bool :=
  0x20 ≤ b && b < 0x7f && !urlReserved.contains (Char.ofNat b.toNat)

/-- A hexadecimal digit in upper case. -/
def hexDigit (n : Nat) : Char :=
  if n < 10 then Char.ofNat (n + '0'.toNat) else Char.ofNat (n - 10 + 'A'.toNat)

/-- A byte of a path segment in an address. -/
def urlByte (b : UInt8) : List Char :=
  if urlPlain b then [Char.ofNat b.toNat]
  else ['%', hexDigit (b.toNat / 16), hexDigit (b.toNat % 16)]

/-- A path segment in an address. -/
def urlSegment (s : String) : String := String.ofList ((Text.Utf8.encode s).flatMap urlByte)

/-- The segment that a component of an absolute path leaves in an address. -/
def urlComponent : Component → Option String
  | .name s => some (urlSegment s)
  | .up => some ".."
  | .root => none
  | .here => none

/-- The `file:` address of an absolute path. -/
def fileUrl (p : Path) : Option String :=
  if p.isAbsolute then
    some ("file:///" ++ "/".intercalate (p.components.filterMap urlComponent))
  else none

end ProblemBoard.Path
