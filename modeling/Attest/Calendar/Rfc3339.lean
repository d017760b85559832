import Attest.Bytes
import Attest.Calendar.Timestamp
import Attest.Text.Ascii
import Attest.Text.Quoted

/-!
The reading of times written as `YYYY-MM-DDTHH:MM:SS`, with an optional fraction of a second,
which is dropped, and an offset from UTC, which is taken into account. The parts are checked from
left to right, except that an offset of a day or more is found out only after the text has been read
to its end. The second 60 is a leap second, in whatever minute it stands.
-/

namespace Attest

/-- Why a text is not a time. -/
inductive TimeFault
  | cut
  | invalid
  | outOfRange
  | trailing
  deriving DecidableEq

def TimeFault.message : TimeFault → String
  | .cut => "premature end of input"
  | .invalid => "input contains invalid characters"
  | .outOfRange => "input is out of range"
  | .trailing => "trailing input"

/-- Why a time cannot be made. -/
inductive TimeError
  | notUtc (text : String)
  | malformed (text : String) (fault : TimeFault)
  | outOfRange (seconds : Int)
  deriving DecidableEq

def TimeError.message (e : TimeError) : String :=
  "invalid timestamp: " ++ match e with
  | .notUtc text => "expected a UTC time ending in 'Z', got " ++ Text.quoted text
  | .malformed text fault =>
    Text.quoted text ++ " is not an RFC 3339 time: " ++ fault.message
  | .outOfRange seconds =>
    "epoch seconds out of range: " ++ String.ofList (DecimalLayout.integer seconds)

namespace Rfc3339

open Ascii (byte isDigit digitValue)

/-- The number that two digits stand for. -/
def twoDigits (a b : UInt8) : Except TimeFault Nat :=
  if isDigit a && isDigit b then .ok (10 * digitValue a + digitValue b) else .error .invalid

/-- Checks that a byte is the one that must stand there. -/
def expect (b : UInt8) (c : Char) : Except TimeFault Unit :=
  if b == byte c then .ok () else .error .invalid

/-- The text after an optional fraction of a second. -/
def skipFraction (text : Bytes) : Except TimeFault Bytes :=
  match text with
  | [] => .ok []
  | b :: rest =>
    if b == byte '.' then
      match rest with
      | [] => .error .cut
      | d :: _ => if isDigit d then .ok (rest.dropWhile isDigit) else .error .invalid
    else .ok (b :: rest)

/-- Whether the sign at the start of an offset is a minus, and the text after it. The minus may also
be the character U+2212. -/
def offsetSign : Bytes → Except TimeFault (Bool × Bytes)
  | [] => .error .cut
  | 0xE2 :: 0x88 :: 0x92 :: rest => .ok (true, rest)
  | b :: rest =>
    if b == byte '+' then .ok (false, rest)
    else if b == byte '-' then .ok (true, rest)
    else .error .invalid

/-- The minutes of an offset from UTC at the start of a text, with any two digits for its hours, and
the text after it. -/
def offset (text : Bytes) : Except TimeFault (Int × Bytes) := do
  match text with
  | b :: rest => if b == byte 'Z' || b == byte 'z' then return (0, rest)
  | [] => pure ()
  let (negative, text) ← offsetSign text
  let (hours, text) ← match text with
    | a :: b :: rest => do pure (← twoDigits a b, rest)
    | _ => throw .cut
  let text ← match text with
    | c :: rest => do expect c ':'; pure rest
    | [] => throw .cut
  let (minutes, text) ← match text with
    | a :: b :: rest => do pure (← twoDigits a b, rest)
    | _ => throw .cut
  if 59 < minutes then throw .outOfRange
  let total : Int := 60 * hours + minutes
  return (if negative then -total else total, text)

/-- How many minutes a day has. The offset from UTC is less than that. -/
def minutesOfDay : Nat := 1440

/-- The local time of these parts. The second 60 is the leap second behind the second 59. -/
def localTime (date : Date) (hour minute second : Nat) : Except TimeFault Timestamp :=
  if h : hour < 24 ∧ minute < 60 ∧ second ≤ 60 then
    .ok
      { date, hour, minute
        second := min second 59
        leap := second == 60
        hour_lt := h.1
        minute_lt := h.2.1
        second_lt := by omega }
  else .error .outOfRange

/-- The time that a text stands for. -/
def read (text : Bytes) : Except TimeFault Timestamp :=
  match text with
  | y₁ :: y₂ :: y₃ :: y₄ :: dash₁ :: m₁ :: m₂ :: dash₂ :: d₁ :: d₂ :: t ::
      h₁ :: h₂ :: colon₁ :: i₁ :: i₂ :: colon₂ :: s₁ :: s₂ :: rest => do
    let century ← twoDigits y₁ y₂
    let year ← twoDigits y₃ y₄
    expect dash₁ '-'
    let month ← twoDigits m₁ m₂
    expect dash₂ '-'
    let day ← twoDigits d₁ d₂
    let date ← match Date.ofParts? (100 * century + year : Nat) month day with
      | some date => pure date
      | none => throw .outOfRange
    unless t == byte 'T' || t == byte 't' || t == byte ' ' do throw .invalid
    let hour ← twoDigits h₁ h₂
    expect colon₁ ':'
    let minute ← twoDigits i₁ i₂
    expect colon₂ ':'
    let second ← twoDigits s₁ s₂
    let rest ← skipFraction rest
    let time ← localTime date hour minute second
    let (minutes, rest) ← offset rest
    unless rest.isEmpty do throw .trailing
    unless minutes.natAbs < minutesOfDay do throw .outOfRange
    return time.shift (-minutes)
  | _ => .error .cut

end Rfc3339

namespace Timestamp

/-- The time that a text in the form of RFC 3339 stands for. -/
def parseLenient (s : String) : Except TimeError Timestamp :=
  (Rfc3339.read (Bytes.ofString s)).mapError (.malformed s)

/-- The time that a text ending in `Z` stands for. -/
def parse (s : String) : Except TimeError Timestamp :=
  if s.toList.getLast? = some 'Z' then parseLenient s else .error (.notUtc s)

/-- The time a number of seconds after the start of 1970. -/
def ofEpoch (seconds : Int) : Except TimeError Timestamp :=
  match ofEpoch? seconds false with
  | some t => .ok t
  | none => .error (.outOfRange seconds)

end Timestamp

end Attest
