import Attest.Bytes
import Attest.Json.Draft
import Attest.Text.Ascii

/-!
The reading of bytes into a draft. White space is the space, the tab, the line feed and the carriage
return. A string ends at the first quote that no backslash escapes; escapes, control characters and
the pairing of surrogates are checked on the way, and at its end its bytes must be the encoding of a
text. The depth of nesting is not limited here.
-/

namespace Attest.Json

open Ascii (byte isDigit)

/-- Whether a byte is white space. -/
def isBlank (b : UInt8) : Bool :=
  b == byte ' ' || b == byte '\n' || b == byte '\t' || b == byte '\r'

/-- The text without the white space at its start. -/
def skipBlank (text : Bytes) : Bytes := text.dropWhile isBlank

/-! ### Strings -/

/-- The character that a backslash and this byte stand for. -/
def shortEscape? (b : UInt8) : Option UInt8 :=
  if b == byte '"' || b == byte '\\' || b == byte '/' then some b
  else if b == byte 'b' then some 0x08
  else if b == byte 'f' then some 0x0c
  else if b == byte 'n' then some 0x0a
  else if b == byte 'r' then some 0x0d
  else if b == byte 't' then some 0x09
  else none

/-- The number that four hexadecimal digits stand for. -/
def hexUnit? (a b c d : UInt8) : Option Nat := do
  let a ← Bytes.hexValue? a.toNat
  let b ← Bytes.hexValue? b.toNat
  let c ← Bytes.hexValue? c.toNat
  let d ← Bytes.hexValue? d.toNat
  return ((a * 16 + b) * 16 + c) * 16 + d

/-- Whether a UTF-16 unit is the first of a pair. -/
def isLeadingSurrogate (unit : Nat) : Bool := 0xD800 ≤ unit && unit ≤ 0xDBFF

/-- Whether a UTF-16 unit is the second of a pair. -/
def isTrailingSurrogate (unit : Nat) : Bool := 0xDC00 ≤ unit && unit ≤ 0xDFFF

/-- The character of a pair of surrogates. -/
def pairedChar (leading trailing : Nat) : Char :=
  Char.ofNat (0x10000 + (leading - 0xD800) * 0x400 + (trailing - 0xDC00))

/-- Puts bytes in front of those that the rest of a string stands for. -/
def prepend (front : Bytes) (rest : Except Error (Bytes × Bytes)) : Except Error (Bytes × Bytes) :=
  rest.map fun (content, after) => (front ++ content, after)

/-- The bytes that a string stands for, from after its opening quote, and the text after it. -/
def readString : Bytes → Except Error (Bytes × Bytes)
  | [] => .error .cutString
  | b :: text =>
    if b == byte '"' then .ok ([], text)
    else if b == byte '\\' then
      match text with
      | [] => .error .cutString
      | e :: text =>
        if e == byte 'u' then
          match text with
          | h₁ :: h₂ :: h₃ :: h₄ :: text =>
            match hexUnit? h₁ h₂ h₃ h₄ with
            | none => .error .invalidEscape
            | some unit =>
              if isTrailingSurrogate unit then .error .loneSurrogate
              else if isLeadingSurrogate unit then
                match text with
                | [] => .error .cutString
                | b :: text =>
                  if b != byte '\\' then .error .unfinishedPair
                  else match text with
                  | [] => .error .cutString
                  | u :: text =>
                    if u != byte 'u' then .error .unfinishedPair
                    else match text with
                    | l₁ :: l₂ :: l₃ :: l₄ :: text =>
                      match hexUnit? l₁ l₂ l₃ l₄ with
                      | none => .error .invalidEscape
                      | some second =>
                        if isTrailingSurrogate second then
                          prepend (String.utf8EncodeChar (pairedChar unit second))
                            (readString text)
                        else .error .loneSurrogate
                    | _ => .error .cutString
              else prepend (String.utf8EncodeChar (Char.ofNat unit)) (readString text)
          | _ => .error .cutString
        else match shortEscape? e with
          | some content => prepend [content] (readString text)
          | none => .error .invalidEscape
    else if b < 0x20 then .error .controlCharacter
    else prepend [b] (readString text)

/-- The text after a string, from after its opening quote; what the string stands for is not
looked at. -/
def skipString : Bytes → Except Error Bytes
  | [] => .error .cutString
  | b :: text =>
    if b == byte '"' then .ok text
    else if b == byte '\\' then
      match text with
      | [] => .error .cutString
      | e :: text =>
        if e == byte 'u' then
          match text with
          | h₁ :: h₂ :: h₃ :: h₄ :: text =>
            if (hexUnit? h₁ h₂ h₃ h₄).isSome then skipString text else .error .invalidEscape
          | _ => .error .cutString
        else if (shortEscape? e).isSome then skipString text
        else .error .invalidEscape
    else if b < 0x20 then .error .controlCharacter
    else skipString text

/-- A string from after its opening quote: what it stands for and the text after it, or the fault
that leaves its end uncertain. -/
def scanString (text : Bytes) : Except Fault (Except Error String × Bytes) :=
  match readString text, skipString text with
  | .ok (content, after), _ =>
    match Bytes.text? content with
    | some s => .ok (.ok s, after)
    | none => .ok (.error .invalidCodePoint, after)
  | .error e, .ok after => .ok (.error e, after)
  | .error e, .error skipping => .error ⟨e, skipping⟩

/-! ### Numbers and literals -/

/-- The fault where a digit must stand: a text that ends there is cut for a reader. -/
def digitFault : Bytes → Fault
  | [] => ⟨.cutValue, .invalidNumber⟩
  | _ => .both .invalidNumber

/-- The exponent of a number, from after the mark. -/
def scanExponent (text : Bytes) : Except Fault (Int × Bytes) :=
  let (negative, text) := match text with
    | b :: rest =>
      if b == byte '-' then (true, rest) else if b == byte '+' then (false, rest) else (false, text)
    | [] => (false, [])
  let (digits, after) := text.span isDigit
  if digits.isEmpty then .error (digitFault text)
  else
    let size := Ascii.decimalValue digits
    .ok (if negative then -size else size, after)

/-- The parts of a number after its sign: the whole digits, the fraction and the exponent. -/
def scanUnsigned (text : Bytes) : Except Fault (Bytes × Bytes × Option Int × Bytes) := do
  let (whole, rest) := text.span isDigit
  if whole.isEmpty then throw (digitFault text)
  if whole.head? == some (byte '0') && whole.length > 1 then throw (.both .invalidNumber)
  let (fraction, rest) ← match rest with
    | b :: afterPoint =>
      if b == byte '.' then
        let (digits, after) := afterPoint.span isDigit
        if digits.isEmpty then throw (digitFault afterPoint) else pure (digits, after)
      else pure ([], rest)
    | [] => pure ([], [])
  match rest with
  | b :: afterMark =>
    if b == byte 'e' || b == byte 'E' then
      let (exponent, after) ← scanExponent afterMark
      return (whole, fraction, some exponent, after)
    else return (whole, fraction, none, rest)
  | [] => return (whole, fraction, none, [])

/-- A number and the text after it. -/
def scanNumber (text : Bytes) : Draft × Option Bytes :=
  let negative := text.head? == some (byte '-')
  match scanUnsigned (if negative then text.tail else text) with
  | .error fault => (.broken fault, none)
  | .ok (whole, fraction, exponent, after) =>
    let value := Number.ofParts? negative (Ascii.decimalValue whole)
      (Ascii.decimalValue fraction) fraction.length exponent
    (.number (value.elim (.error .numberOutOfRange) .ok), some after)

/-- The text after the remaining letters of a literal. -/
def skipLetters : (letters : List Char) → Bytes → Except Error Bytes
  | [], text => .ok text
  | _ :: _, [] => .error .cutValue
  | c :: letters, b :: text =>
    if b == byte c then skipLetters letters text else .error .expectedLiteral

/-- A literal with its meaning and the text after it. -/
def scanLiteral (meaning : Draft) (letters : List Char) (text : Bytes) : Draft × Option Bytes :=
  match skipLetters letters text with
  | .ok after => (meaning, some after)
  | .error e => (.broken (.both e), none)

/-! ### Values -/

mutual

/-- The value at the start of a text, and the text after it if the value is read to its end. The
first argument bounds the steps of reading. -/
def scanValue : Nat → Bytes → Draft × Option Bytes
  | 0, _ => (.broken (.both .cutValue), none)
  | fuel + 1, text =>
    match skipBlank text with
    | [] => (.broken (.both .cutValue), none)
    | b :: rest =>
      if b == byte '"' then
        match scanString rest with
        | .ok (content, after) => (.string content, some after)
        | .error fault => (.broken fault, none)
      else if b == byte '[' then
        let (items, ending, after) := scanItems fuel true rest
        (.array items ending, after)
      else if b == byte '\x7b' then
        let (members, ending, after) := scanMembers fuel true rest
        (.object members ending, after)
      else if b == byte 'n' then scanLiteral .null ['u', 'l', 'l'] rest
      else if b == byte 't' then scanLiteral (.bool true) ['r', 'u', 'e'] rest
      else if b == byte 'f' then scanLiteral (.bool false) ['a', 'l', 's', 'e'] rest
      else if b == byte '-' || isDigit b then scanNumber (b :: rest)
      else (.broken (.both .expectedValue), none)

/-- The items of an array, from after the opening bracket (`first`) or after an item. -/
def scanItems : Nat → (first : Bool) → Bytes → List Draft × Ending × Option Bytes
  | 0, _, _ => ([], .cut, none)
  | fuel + 1, first, text =>
    match skipBlank text with
    | [] => ([], .cut, none)
    | b :: rest =>
      if b == byte ']' then ([], .closed, some rest)
      else if first then scanItem fuel (b :: rest)
      else if b == byte ',' then
        match skipBlank rest with
        | [] => ([], .cutAfterComma, none)
        | c :: after =>
          if c == byte ']' then ([], .commaBeforeEnd, none) else scanItem fuel (c :: after)
      else ([], .unseparated, none)

/-- An item of an array and the items after it. -/
def scanItem : Nat → Bytes → List Draft × Ending × Option Bytes
  | 0, _ => ([], .cut, none)
  | fuel + 1, text =>
    match scanValue fuel text with
    | (item, none) => ([item], .cut, none)
    | (item, some after) =>
      let (items, ending, after) := scanItems fuel false after
      (item :: items, ending, after)

/-- The members of an object, from after the opening brace (`first`) or after a member. -/
def scanMembers : Nat → (first : Bool) → Bytes →
    List (Except Error String × Draft) × Ending × Option Bytes
  | 0, _, _ => ([], .cut, none)
  | fuel + 1, first, text =>
    match skipBlank text with
    | [] => ([], .cut, none)
    | b :: rest =>
      if b == byte '\x7d' then ([], .closed, some rest)
      else if first then scanMember fuel (b :: rest)
      else if b == byte ',' then
        match skipBlank rest with
        | [] => ([], .cutAfterComma, none)
        | c :: after =>
          if c == byte '\x7d' then ([], .commaBeforeEnd, none) else scanMember fuel (c :: after)
      else ([], .unseparated, none)

/-- A member of an object and the members after it. -/
def scanMember : Nat → Bytes → List (Except Error String × Draft) × Ending × Option Bytes
  | 0, _ => ([], .cut, none)
  | fuel + 1, text =>
    match text with
    | [] => ([], .cut, none)
    | b :: rest =>
      if b != byte '"' then ([], .name (.both .nameNotString), none)
      else match scanString rest with
      | .error fault => ([], .name fault, none)
      | .ok (name, after) =>
        match skipBlank after with
        | [] => ([(name, .broken (.both .cutObject))], .cut, none)
        | c :: after =>
          if c != byte ':' then ([(name, .broken (.both .expectedColon))], .cut, none)
          else match scanValue fuel after with
          | (value, none) => ([(name, value)], .cut, none)
          | (value, some after) =>
            let (members, ending, after) := scanMembers fuel false after
            ((name, value) :: members, ending, after)

end

/-- The value of a text, and whether anything but white space follows it. -/
def scan (text : Bytes) : Draft × Bool :=
  match scanValue (3 * text.length + 3) text with
  | (draft, none) => (draft, false)
  | (draft, some after) => (draft, !(skipBlank after).isEmpty)

end Attest.Json
