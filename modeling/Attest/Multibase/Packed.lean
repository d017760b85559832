import Attest.Bytes

/-!
Codes in which each letter carries a fixed number of bits. A text is well formed if it is as short
as its bytes allow and the bits left over at its end are zero; a padded text is also filled up to
whole blocks with padding, block by block.
-/

namespace Attest

/-- The lowest `width` bits of a number, the highest first. -/
def lowBits (width n : Nat) : List Bool := (List.range width).reverse.map n.testBit

/-- The number with these binary digits, the highest first. -/
def ofBits (bits : List Bool) : Nat := bits.foldl (fun n bit => 2 * n + bit.toNat) 0

/-- Whole bytes of bits, and the bits left over. -/
def wholeBytes : List Bool → Bytes × List Bool
  | a :: b :: c :: d :: e :: f :: g :: h :: rest =>
    let (bytes, left) := wholeBytes rest
    ((ofBits [a, b, c, d, e, f, g, h]).toUInt8 :: bytes, left)
  | left => ([], left)

/-- The bytes that letters of `width` bits carry, if the letters are well formed. -/
def unpack? (width : Nat) (letters : List Nat) : Option Bytes :=
  let (bytes, left) := wholeBytes (letters.flatMap (lowBits width))
  if left.length < width ∧ left.all (! ·) then some bytes else none

/-- A list in pieces of a given length. -/
def blocksOf {α : Type} (size : Nat) : (fuel : Nat) → List α → List (List α)
  | 0, _ => []
  | _, [] => []
  | fuel + 1, list => list.take size :: blocksOf size fuel (list.drop size)

/-- A block without the padding at its end; there must be something in front of the padding. -/
def unpadded? (padding : Char) (size : Nat) (block : List Char) : Option (List Char) :=
  let content := (block.reverse.dropWhile (· == padding)).reverse
  if block.length = size ∧ content ≠ [] then some content else none

end Attest
