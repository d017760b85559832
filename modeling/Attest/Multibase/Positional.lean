/-!
Numbers as digits in a base, and the reading of a digit string of one base as a digit string of
another. Each leading zero stands for itself, so strings that differ only in leading zeros stay
different.
-/

namespace Attest

/-- At most `count` digits of a number, the highest first and none of them a leading zero. -/
def digitsUpTo (base : Nat) : (count : Nat) → Nat → List Nat
  | 0, _ => []
  | count + 1, n => if n = 0 then [] else digitsUpTo base count (n / base) ++ [n % base]

/-- The digits of a number in a base from two on, the highest first. Zero has none. -/
def digits (base n : Nat) : List Nat := digitsUpTo base (n.log2 + 1) n

/-- The number with these digits. -/
def ofDigits (base : Nat) (ds : List Nat) : Nat := ds.foldl (fun n d => base * n + d) 0

/-- A digit string of one base as a digit string of another. -/
def convertDigits (source target : Nat) (ds : List Nat) : List Nat :=
  List.replicate (ds.takeWhile (· == 0)).length 0 ++ digits target (ofDigits source ds)

end Attest
