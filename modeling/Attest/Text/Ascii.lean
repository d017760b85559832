/-!
ASCII characters as bytes, for readers that work on bytes.
-/

namespace Attest.Ascii

/-- The byte of an ASCII character. -/
abbrev byte (c : Char) : UInt8 := c.toUInt8

/-- Whether a byte is a decimal digit. -/
def isDigit (b : UInt8) : Bool := 0x30 ≤ b && b ≤ 0x39

def digitValue (b : UInt8) : Nat := b.toNat - 0x30

def decimalValue (digits : List UInt8) : Nat :=
  digits.foldl (fun n b => 10 * n + digitValue b) 0

end Attest.Ascii
