/-!
Wordings that end in a position in a text, such as `a colon is missing at line 3 column 8`.
-/

namespace Attest.Text

/-- A position in a text. Lines count from 1, so that one in line 0 is none. -/
structure Position where
  line : Nat
  column : Nat
  deriving DecidableEq

namespace Position

/-- What stands before the line. -/
def lineMark : List Char := " at line ".toList

/-- What stands before the column. -/
def columnMark : List Char := " column ".toList

/-- The words for a position at the end of a wording. -/
def phrase (p : Position) : List Char :=
  lineMark ++ Nat.toDigits 10 p.line ++ columnMark ++ Nat.toDigits 10 p.column

/-- The number that stands after a mark at the end of a text, and the text before the mark. Both
texts are written from their ends. -/
def splitNumber? (mark reversed : List Char) : Option (Nat × List Char) :=
  let digits := reversed.takeWhile Char.isDigit
  let rest := reversed.dropWhile Char.isDigit
  if digits ≠ [] ∧ mark.reverse <+: rest then
    some (Nat.ofDigitChars 10 digits.reverse 0, rest.drop mark.length)
  else none

/-- The position that a wording ends with, and the wording before it. -/
def split? (wording : String) : Option (Position × String) := do
  let (column, rest) ← splitNumber? columnMark wording.toList.reverse
  let (line, rest) ← splitNumber? lineMark rest
  return (⟨line, column⟩, String.ofList rest.reverse)

end Position

end Attest.Text
