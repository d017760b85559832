import Attest.Numeral.Shortest

/-!
The written forms of decimal numbers. A layout says between which exponents of the first digit a
number is written positionally, and whether a whole number then keeps a fraction; outside that range
it is written with an exponent, whose sign is always shown.
-/

namespace Attest

/-- How decimal numbers are written. -/
structure DecimalLayout where
  least : Int
  greatest : Int
  keepsFraction : Bool

namespace DecimalLayout

/-- Documents are written positionally from `0.00001` up to sixteen digits before the point, and a
whole floating-point number ends in `.0`. -/
def document : DecimalLayout := ⟨-5, 15, true⟩

/-- The canonical form writes positionally from `0.000001` up to twenty-one digits before the point,
and a whole number has no point. -/
def canonical : DecimalLayout := ⟨-6, 20, false⟩

def integer : Int → List Char
  | .ofNat n => Nat.toDigits 10 n
  | .negSucc n => '-' :: Nat.toDigits 10 (n + 1)

/-- A number with its point between, before or behind its digits. -/
def positional (l : DecimalLayout) (s : Scientific) : List Char :=
  match s.point with
  | .negSucc zeros => '0' :: '.' :: List.replicate (zeros + 1) '0' ++ s.digits
  | .ofNat 0 => '0' :: '.' :: s.digits
  | .ofNat whole =>
    if s.digits.length ≤ whole then
      s.digits ++ List.replicate (whole - s.digits.length) '0' ++
        (if l.keepsFraction then ['.', '0'] else [])
    else s.digits.take whole ++ '.' :: s.digits.drop whole

/-- A number with one digit before the point and an exponent. -/
def exponential (s : Scientific) : List Char :=
  let exponent := s.point - 1
  let sign := if exponent < 0 then '-' else '+'
  let fraction := if s.digits.length ≤ 1 then [] else '.' :: s.digits.drop 1
  s.digits.take 1 ++ fraction ++ 'e' :: sign :: Nat.toDigits 10 exponent.natAbs

/-- A positive number in the layout. -/
def text (l : DecimalLayout) (s : Scientific) : List Char :=
  if l.least ≤ s.point - 1 ∧ s.point - 1 ≤ l.greatest then l.positional s else exponential s

end DecimalLayout

namespace Binary

variable {f : BinaryFormat}

/-- The number as a document writes it. -/
def documentText (x : Binary f) : List Char :=
  let magnitude := if x.isZero then ['0', '.', '0'] else DecimalLayout.document.text x.shortest
  if x.negative then '-' :: magnitude else magnitude

/-- The number as the canonical form writes it: both zeros are `0`. -/
def canonicalText (x : Binary f) : List Char :=
  if x.isZero then ['0']
  else if x.negative then '-' :: DecimalLayout.canonical.text x.shortest
  else DecimalLayout.canonical.text x.shortest

end Binary

end Attest
