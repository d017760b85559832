import Attest.Numeral.Binary

/-!
The fewest decimal digits that name a binary floating-point number. For each count of digits the
two neighbours of the number on that decimal grid are tried; the first count for which one of them
rounds to the number wins, of two the nearer one, and of two equally near ones the even one. The
digits found always round back to the number.
-/

namespace Attest

/-- A positive decimal number `0.d₁d₂… * 10 ^ point`, with `d₁` not zero and no zero at the end. -/
structure Scientific where
  digits : List Char
  point : Int
  deriving DecidableEq

namespace Scientific

/-- The number `coefficient * 10 ^ exponent`. -/
def ofCoefficient (coefficient : Nat) (exponent : Int) : Scientific :=
  let digits := Nat.toDigits 10 coefficient
  { digits := (digits.reverse.dropWhile (· == '0')).reverse
    point := digits.length + exponent }

end Scientific

structure Ratio where
  num : Nat
  den : Nat

namespace Ratio

/-- The quotient of the number by a power of ten. -/
def scale (r : Ratio) : (exponent : Int) → Ratio
  | .ofNat e => ⟨r.num, r.den * Nat.pow 10 e⟩
  | .negSucc e => ⟨r.num * Nat.pow 10 (e + 1), r.den⟩

/-- The exponent of the first decimal digit: `10 ^ e ≤ r < 10 ^ (e + 1)`. -/
def magnitude (r : Ratio) : Int :=
  if r.den ≤ r.num then (Nat.toDigits 10 (r.num / r.den)).length - 1
  else
    let places := (Nat.toDigits 10 (r.den / r.num)).length
    if r.den ≤ r.num * Nat.pow 10 (places - 1) then 1 - (places : Int) else -(places : Int)

end Ratio

namespace Binary

variable {f : BinaryFormat}

/-- The absolute value of the number. -/
def ratio (x : Binary f) : Ratio := ⟨x.significand * Nat.pow 2 x.exponent, Nat.pow 2 f.unit⟩

/-- The decimal number with the given exponent nearest to `x` among the two next to it that round to
`x`. -/
def decimalAt? (x : Binary f) (exponent : Int) : Option Scientific :=
  let scaled := x.ratio.scale exponent
  let low := scaled.num / scaled.den
  let twice := 2 * (scaled.num % scaled.den)
  let names (coefficient : Nat) : Bool :=
    ofDecimal? f x.negative coefficient exponent == some x
  let lowFirst := twice < scaled.den || (twice == scaled.den && low % 2 == 0)
  let order := if lowFirst then [low, low + 1] else [low + 1, low]
  (order.find? names).map (Scientific.ofCoefficient · exponent)

/-- All decimal digits of the number. -/
def exactDecimal (x : Binary f) : Scientific :=
  Scientific.ofCoefficient (x.significand * Nat.pow 2 x.exponent * Nat.pow 5 f.unit)
    (-(f.unit : Int))

/-- The shortest decimal number that rounds to `x`, which is not zero. -/
def shortest (x : Binary f) : Scientific :=
  let magnitude := x.ratio.magnitude
  ((List.range 17).findSome? fun (n : Nat) => x.decimalAt? (magnitude - n)).getD x.exactDecimal

end Binary

end Attest
