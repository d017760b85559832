import Attest.Bytes
import Attest.Curve.Modular

/-!
The twisted Edwards curve `-x² + y² = 1 + d x² y²` over the integers modulo `2²⁵⁵ - 19`. Points are
kept in extended coordinates `(X : Y : Z : T)` with `x = X / Z`, `y = Y / Z` and `x y = T / Z`, for
which one formula adds any two points. A point is written as the 255 bits of `y` followed by the
parity of `x`.
-/

namespace Attest.Edwards

/-- The order of the field. -/
def prime : Nat := Nat.pow 2 255 - 19

/-- The order of the base point. -/
def order : Nat := Nat.pow 2 252 + 27742317777372353535851937790883648493

/-- The coefficient of the curve, `-121665 / 121666`. -/
def coefficient : Nat :=
  37095705934669439343138083508754565189542113879843219016388785533085940283555

/-- A square root of minus one. -/
def rootOfMinusOne : Nat :=
  19681161376707505956807079304988542015446066515923890162744021073123829784752

/-- A point in extended coordinates. -/
structure Point where
  x : Nat
  y : Nat
  z : Nat
  t : Nat
  deriving DecidableEq

open Attest.Modular

namespace Point

def zero : Point := ⟨0, 1, 1, 0⟩

def ofAffine (x y : Nat) : Point := ⟨x, y, 1, mul prime x y⟩

def base : Point := ofAffine
  15112221349535400772501151409588531511454012693041857206046113283949847762202
  46316835694926478169428394003475163141307993866256225615783033603165251855960

def add (p q : Point) : Point :=
  let a := mul prime (sub prime p.y p.x) (sub prime q.y q.x)
  let b := mul prime (p.y + p.x) (q.y + q.x)
  let c := mul prime (mul prime p.t (2 * coefficient)) q.t
  let d := mul prime p.z (2 * q.z)
  let e := sub prime b a
  let f := sub prime d c
  let g := d + c
  let h := b + a
  ⟨mul prime e f, mul prime g h, mul prime f g, mul prime e h⟩

/-- The point with the opposite `x`. -/
def neg (p : Point) : Point := ⟨sub prime 0 p.x, p.y, p.z, sub prime 0 p.t⟩

def multiply (n : Nat) (p : Point) : Point :=
  (binaryDigits n).foldl (fun q digit => if digit then (q.add q).add p else q.add q) zero

def affine (p : Point) : Nat × Nat :=
  let scale := inverse prime p.z
  (mul prime p.x scale, mul prime p.y scale)

/-- The 32 bytes of a point: `y` with the lowest byte first, and the parity of `x` as the highest
bit. -/
def compress (p : Point) : Bytes :=
  let (x, y) := p.affine
  Bytes.ofNatLittle 32 (y + x % 2 * Nat.pow 2 255)

end Point

/-- An even root `x` of `v * x² = u`, if there is one. -/
def evenRoot? (u v : Nat) : Option Nat :=
  let cube := mul prime (mul prime v v) v
  let seventh := mul prime (mul prime cube cube) v
  let candidate := mul prime (mul prime u cube) (pow prime (mul prime u seventh) ((prime - 5) / 8))
  let check := mul prime v (mul prime candidate candidate)
  let even (x : Nat) : Nat := if x % 2 = 0 then x else prime - x
  if check = u then some (even candidate)
  else if check = sub prime 0 u then some (even (mul prime candidate rootOfMinusOne))
  else none

/-- The point that 32 bytes stand for, if there is one on the curve. The coordinate `y` is taken
modulo the order of the field, and `x = 0` may carry the parity bit. -/
def decompress? (bytes : Bytes) : Option Point :=
  let n := Bytes.toNatLittle bytes
  let y := n % Nat.pow 2 255 % prime
  let square := mul prime y y
  (evenRoot? (sub prime square 1) (add prime (mul prime coefficient square) 1)).map fun x =>
    Point.ofAffine (if n / Nat.pow 2 255 % 2 = 1 then sub prime 0 x else x) y

end Attest.Edwards
