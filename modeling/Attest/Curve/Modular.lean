/-!
Arithmetic modulo a number, on natural numbers. Powers, and multiples of curve points likewise, run
over the binary digits of the exponent from the highest on.
-/

namespace Attest

/-- The binary digits of a number, the highest first. -/
def binaryDigits (n : Nat) : List Bool := (List.range (n.log2 + 1)).reverse.map n.testBit

namespace Modular

variable (p : Nat)

def add (a b : Nat) : Nat := (a + b) % p

def sub (a b : Nat) : Nat := (a + (p - b % p)) % p

def mul (a b : Nat) : Nat := a * b % p

def pow (a e : Nat) : Nat :=
  (binaryDigits e).foldl (fun x digit => if digit then mul p (mul p x x) a else mul p x x) (1 % p)

/-- The inverse modulo a prime `p`; zero for a multiple of `p`. -/
def inverse (a : Nat) : Nat := pow p a (p - 2)

end Modular

end Attest
