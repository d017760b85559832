import Attest.Bytes
import Attest.Curve.Modular

/-!
The NIST curve P-256, `y² = x³ - 3 x + b` over a prime field. Sums are formed in Jacobian
coordinates `(X : Y : Z)` with `x = X / Z²` and `y = Y / Z³`; the neutral point has `Z = 0`. A
point is written as a tag byte followed by its coordinates, or by `x` alone where the tag tells
which root `y` is.
-/

namespace Attest.Weierstrass

/-- The order of the field. -/
def prime : Nat := 0xffffffff00000001000000000000000000000000ffffffffffffffffffffffff

/-- The order of the group of points. -/
def order : Nat := 0xffffffff00000000ffffffffffffffffbce6faada7179e84f3b9cac2fc632551

/-- The constant term of the curve equation. -/
def constant : Nat := 0x5ac635d8aa3a93e7b3ebbd55769886bc651d06b0cc53b0f63bce3c3e27d2604b

open Attest.Modular

structure Affine where
  x : Nat
  y : Nat
  deriving DecidableEq

/-- The right side of the curve equation. -/
def rightSide (x : Nat) : Nat :=
  add prime (sub prime (mul prime (mul prime x x) x) (3 * x)) constant

/-- Whether a pair of reduced coordinates is a point of the curve. -/
def Affine.onCurve (a : Affine) : Bool :=
  decide (a.x < prime) && decide (a.y < prime) && mul prime a.y a.y == rightSide a.x

/-- A point in Jacobian coordinates. -/
structure Point where
  x : Nat
  y : Nat
  z : Nat
  deriving DecidableEq

namespace Point

def zero : Point := ⟨1, 1, 0⟩

/-- An affine point in Jacobian coordinates. -/
def ofAffine (a : Affine) : Point := ⟨a.x, a.y, 1⟩

def base : Point := ofAffine
  { x := 0x6b17d1f2e12c4247f8bce6e563a440f277037d812deb33a0f4a13945d898c296
    y := 0x4fe342e2fe1a7f9b8ee7eb4a7c0f9e162bce33576b315ececbb6406837bf51f5 }

def double (p : Point) : Point :=
  let yy := mul prime p.y p.y
  let zz := mul prime p.z p.z
  let s := mul prime (4 * p.x) yy
  let m := 3 * mul prime (sub prime p.x zz) (p.x + zz)
  let x := sub prime (mul prime m m) (2 * s)
  ⟨x, sub prime (mul prime m (sub prime s x)) (8 * mul prime yy yy), mul prime (2 * p.y) p.z⟩

def add (p q : Point) : Point :=
  if p.z = 0 then q
  else if q.z = 0 then p
  else
    let pzz := mul prime p.z p.z
    let qzz := mul prime q.z q.z
    let u := mul prime p.x qzz
    let v := mul prime q.x pzz
    let s := mul prime p.y (mul prime q.z qzz)
    let t := mul prime q.y (mul prime p.z pzz)
    if u = v then
      if s = t then p.double else zero
    else
      let h := sub prime v u
      let r := sub prime t s
      let hh := mul prime h h
      let hhh := mul prime h hh
      let uhh := mul prime u hh
      let x := sub prime (mul prime r r) (hhh + 2 * uhh)
      ⟨x, sub prime (mul prime r (sub prime uhh x)) (mul prime s hhh),
        mul prime h (mul prime p.z q.z)⟩

def multiply (n : Nat) (p : Point) : Point :=
  (binaryDigits n).foldl (fun q digit => if digit then q.double.add p else q.double) zero

/-- The affine coordinates of a point other than the neutral one. -/
def affine? (p : Point) : Option Affine :=
  if p.z = 0 then none
  else
    let scale := inverse prime p.z
    let square := mul prime scale scale
    some ⟨mul prime p.x square, mul prime p.y (mul prime scale square)⟩

end Point

/-- A root of the curve equation for `x`, if there is one. -/
def root? (x : Nat) : Option Nat :=
  let y := pow prime (rightSide x) ((prime + 1) / 4)
  if mul prime y y = rightSide x then some y else none

namespace Affine

/-- The 33 bytes of a point: `x` behind a tag that tells the parity of `y`. -/
def compress (a : Affine) : Bytes := (if a.y % 2 = 0 then 0x02 else 0x03) :: Bytes.ofNat 32 a.x

/-- The point whose `x` is given by 32 bytes and whose `y` is the root that `choose` takes from the
two roots. -/
def ofAbscissa? (bytes : Bytes) (choose : Nat → Nat → Nat) : Option Affine :=
  let x := Bytes.toNat bytes
  if bytes.length = 32 ∧ x < prime then
    (root? x).map fun y => ⟨x, choose y (prime - y)⟩
  else none

/-- The point that bytes stand for: a tag and `x` with the parity of `y` (`02`, `03`) or with the
smaller root (`05`), or both coordinates (`04`). -/
def ofBytes? : Bytes → Option Affine
  | [] => none
  | tag :: bytes =>
    if tag = 0x02 then ofAbscissa? bytes fun y z => if y % 2 = 0 then y else z
    else if tag = 0x03 then ofAbscissa? bytes fun y z => if y % 2 = 1 then y else z
    else if tag = 0x05 then ofAbscissa? bytes min
    else if tag = 0x04 ∧ bytes.length = 64 then
      let a : Affine := ⟨Bytes.toNat (bytes.take 32), Bytes.toNat (bytes.drop 32)⟩
      if a.onCurve then some a else none
    else none

end Affine

end Attest.Weierstrass
