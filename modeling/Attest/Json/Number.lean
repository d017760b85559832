import Attest.Numeral.Layout

/-!
The numbers of JSON documents: integers of 64 bits, signed or unsigned, and floating-point numbers
of 64 bits. A number written without fraction and exponent that fits is an integer; every other
number is a floating-point number, even if it is whole. Integers and floating-point numbers are
never equal.
-/

namespace Attest.Json

/-- The least integer of a document, which takes 64 bits with a sign. -/
abbrev leastInteger : Int := -9223372036854775808

/-- The greatest integer of a document, which takes 64 bits without a sign. -/
abbrev greatestInteger : Int := 18446744073709551615

/-- A number of a document. -/
inductive Number
  | integer (value : Int) (fits : leastInteger ≤ value ∧ value ≤ greatestInteger)
  | double (value : Double)
  deriving DecidableEq

namespace Number

/-- The number as a document writes it. -/
def text : Number → List Char
  | .integer value _ => DecimalLayout.integer value
  | .double value => value.documentText

/-- The number as the canonical form writes it. -/
def canonicalText : Number → List Char
  | .integer value _ => DecimalLayout.integer value
  | .double value => value.canonicalText

/-- Equality of the numbers, where the sign of a zero does not count. -/
def agrees : Number → Number → Bool
  | .integer a _, .integer b _ => a == b
  | .double a, .double b => a.agrees b
  | _, _ => false

/-- The number written with these parts: an integer if there is neither fraction nor exponent and
the value fits, else the nearest floating-point number; none beyond the greatest of them. The text
`-0` is the floating-point zero with a minus sign. -/
def ofParts? (negative : Bool) (whole fraction : Nat) (places : Nat) (exponent : Option Int) :
    Option Number :=
  let coefficient := whole * Nat.pow 10 places + fraction
  let asDouble (e : Int) : Option Number :=
    (Binary.ofDecimal? .double negative coefficient (e - places)).map .double
  if places = 0 then
    match exponent with
    | some e => asDouble e
    | none =>
      let value : Int := if negative then -whole else whole
      if negative ∧ whole = 0 then asDouble 0
      else if h : leastInteger ≤ value ∧ value ≤ greatestInteger then some (.integer value h)
      else asDouble 0
  else asDouble (exponent.getD 0)

end Number

end Attest.Json
