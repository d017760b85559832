/-!
Finite binary floating-point numbers of a fixed format, kept as sign, significand and exponent, and
the rounding of a rational number to the nearest of them. All arithmetic is exact, in the natural
numbers. Each number has one representation, so equality of representations tells the numbers apart,
and also the two zeros.
-/

namespace Attest

/-- A binary format: how many bits a significand has, the place of the least unit (numbers are
multiples of `2 ^ -unit`) and the greatest exponent above that unit. -/
structure BinaryFormat where
  precision : Nat
  unit : Nat
  top : Nat

namespace BinaryFormat

/-- The 64-bit format. -/
def double : BinaryFormat := ⟨53, 1074, 2045⟩

/-- The 32-bit format. -/
def single : BinaryFormat := ⟨24, 149, 253⟩

end BinaryFormat

/-- A finite number of a binary format: `± significand * 2 ^ exponent / 2 ^ unit`. The significand
has all its bits in use unless the exponent is the least one. -/
structure Binary (f : BinaryFormat) where
  negative : Bool
  significand : Nat
  exponent : Nat
  significand_lt : significand < Nat.pow 2 f.precision
  normal : exponent = 0 ∨ Nat.pow 2 (f.precision - 1) ≤ significand
  exponent_le : exponent ≤ f.top
  deriving DecidableEq

abbrev Double := Binary .double

abbrev Single := Binary .single

/-- The integer nearest to a quotient; of two equally near ones the even one. -/
def roundHalfEven (num den : Nat) : Nat :=
  let quotient := num / den
  let remainder := num % den
  if 2 * remainder < den then quotient
  else if den < 2 * remainder then quotient + 1
  else if quotient % 2 = 0 then quotient
  else quotient + 1

namespace Binary

variable {f : BinaryFormat}

/-- The number with these parts, if they form one of the format. -/
def ofParts? (f : BinaryFormat) (negative : Bool) (significand exponent : Nat) :
    Option (Binary f) :=
  if h : significand < Nat.pow 2 f.precision ∧
      (exponent = 0 ∨ Nat.pow 2 (f.precision - 1) ≤ significand) ∧ exponent ≤ f.top then
    some ⟨negative, significand, exponent, h.1, h.2.1, h.2.2⟩
  else none

/-- The number of the format nearest to `± num / den`, of two equally near ones the one with the
even significand; none if that lies beyond the greatest finite number. -/
def nearest? (f : BinaryFormat) (negative : Bool) (num den : Nat) : Option (Binary f) :=
  let units := num * Nat.pow 2 f.unit
  let exponent := (units / den).log2 + 1 - f.precision
  let significand := roundHalfEven units (den * Nat.pow 2 exponent)
  if significand = Nat.pow 2 f.precision then
    ofParts? f negative (Nat.pow 2 (f.precision - 1)) (exponent + 1)
  else ofParts? f negative significand exponent

/-- The zero of the format with the given sign. -/
def zero (f : BinaryFormat) (negative : Bool) : Binary f :=
  ⟨negative, 0, 0, Nat.two_pow_pos _, .inl rfl, Nat.zero_le _⟩

/-- Decimal orders of magnitude that no supported format reaches, in either direction. -/
def magnitudeBound : Int := 400

/-- The number of the format nearest to `± coefficient * 10 ^ exponent`. A magnitude far beyond the
format is decided by the count of digits alone. -/
def ofDecimal? (f : BinaryFormat) (negative : Bool) (coefficient : Nat) (exponent : Int) :
    Option (Binary f) :=
  let magnitude := exponent + (Nat.toDigits 10 coefficient).length
  if coefficient = 0 ∨ magnitude < -magnitudeBound then some (zero f negative)
  else if magnitudeBound < magnitude then none
  else match exponent with
    | .ofNat e => nearest? f negative (coefficient * Nat.pow 10 e) 1
    | .negSucc e => nearest? f negative coefficient (Nat.pow 10 (e + 1))

/-- The 64-bit number nearest to a number of another format; one of a narrower format is kept. -/
def toDouble (x : Binary f) : Double :=
  (nearest? .double x.negative (x.significand * Nat.pow 2 x.exponent) (Nat.pow 2 f.unit)).getD
    (zero .double x.negative)

/-- Whether the number is one of the two zeros. -/
def isZero (x : Binary f) : Bool := x.significand == 0

/-- Equality of the numbers, where the sign of a zero does not count. -/
def agrees (x y : Binary f) : Bool := x == y || (x.isZero && y.isZero)

end Binary

end Attest
