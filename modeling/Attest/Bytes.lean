/-!
Byte strings, the form in which documents, keys and signatures travel, and their readings as text,
as hexadecimal digits and as natural numbers. Encoding a text and reading it back is the identity,
and a byte string reads as at most one text.
-/

namespace Attest

abbrev Bytes := List UInt8

namespace Bytes

/-- The UTF-8 encoding of a sequence of characters. -/
def ofChars (cs : List Char) : Bytes := cs.flatMap String.utf8EncodeChar

/-- The UTF-8 encoding of a text. -/
def ofString (s : String) : Bytes := s.toByteArray.data.toList

/-- The text that a byte string encodes, if it is valid UTF-8. -/
def text? (b : Bytes) : Option String := String.fromUTF8? b.toByteArray

@[simp] theorem ofChars_nil : ofChars [] = [] := rfl

@[simp] theorem ofChars_cons (c : Char) (cs : List Char) :
    ofChars (c :: cs) = String.utf8EncodeChar c ++ ofChars cs := rfl

@[simp] theorem ofChars_append (cs ds : List Char) :
    ofChars (cs ++ ds) = ofChars cs ++ ofChars ds := by
  simp [ofChars]

@[simp] theorem ofString_ofList (cs : List Char) : ofString (String.ofList cs) = ofChars cs := by
  simp [ofString, ofChars, String.toByteArray_ofList, List.utf8Encode]

theorem ofString_eq_ofChars (s : String) : ofString s = ofChars s.toList := by
  rw [← ofString_ofList, String.ofList_toList]

theorem toByteArray_ofString (s : String) : (ofString s).toByteArray = s.toByteArray := by
  apply ByteArray.ext
  simp [ofString]

theorem text?_ofString (s : String) : text? (ofString s) = some s := by
  rw [text?, toByteArray_ofString, String.fromUTF8?, dif_pos s.isValidUTF8]
  rfl

theorem ofString_injective {s t : String} (h : ofString s = ofString t) : s = t := by
  have := congrArg text? h
  rwa [text?_ofString, text?_ofString, Option.some.injEq] at this

/-- The number whose digits in base 256 are the bytes, the most significant first. -/
def toNat (b : Bytes) : Nat := b.foldl (fun n x => 256 * n + x.toNat) 0

/-- The last `width` base-256 digits of a number, the most significant first. -/
def ofNat : (width n : Nat) → Bytes
  | 0, _ => []
  | width + 1, n => ofNat width (n / 256) ++ [n.toUInt8]

/-- The number whose digits in base 256 are the bytes, the least significant first. -/
def toNatLittle (b : Bytes) : Nat := toNat b.reverse

/-- The last `width` base-256 digits of a number, the least significant first. -/
def ofNatLittle (width n : Nat) : Bytes := (ofNat width n).reverse

@[simp] theorem length_ofNat (width n : Nat) : (ofNat width n).length = width := by
  induction width generalizing n with
  | zero => rfl
  | succ width ih => simp [ofNat, ih]

@[simp] theorem length_ofNatLittle (width n : Nat) : (ofNatLittle width n).length = width := by
  simp [ofNatLittle]

/-- The bytes as lower-case hexadecimal digits, two for each byte. -/
def toHex (b : Bytes) : String :=
  String.ofList (b.flatMap fun x => [Nat.digitChar (x.toNat / 16), Nat.digitChar (x.toNat % 16)])

/-- The value of a hexadecimal digit, given as an ASCII code. -/
def hexValue? (code : Nat) : Option Nat :=
  if 48 ≤ code ∧ code ≤ 57 then some (code - 48)
  else if 97 ≤ code ∧ code ≤ 102 then some (code - 87)
  else if 65 ≤ code ∧ code ≤ 70 then some (code - 55)
  else none

/-- The bytes that pairs of hexadecimal digits stand for. -/
def ofHexDigits? : List Char → Option Bytes
  | [] => some []
  | [_] => none
  | high :: low :: rest => do
    let h ← hexValue? high.toNat
    let l ← hexValue? low.toNat
    let bytes ← ofHexDigits? rest
    return (16 * h + l).toUInt8 :: bytes

/-- The bytes written as hexadecimal digits. -/
def ofHex? (s : String) : Option Bytes := ofHexDigits? s.toList

end Bytes

end Attest
