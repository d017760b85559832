import Attest.Calendar.Date
import Attest.Numeral.Layout

/-!
Proof times: UTC, in whole seconds. A second may be followed by a leap second, which is a time of its own. That is the
second 60 of a minute when it follows the last one, and nothing keeps it from following another. Times are ordered by
their parts from the year down, and written as `YYYY-MM-DDTHH:MM:SSZ`, where a leap second counts as one second more.
-/

namespace Attest

/-- A time in UTC: a second, or the leap second that follows it. -/
@[ext]
structure Timestamp where
  date : Date
  hour : Nat
  minute : Nat
  second : Nat
  leap : Bool
  hour_lt : hour < 24
  minute_lt : minute < 60
  second_lt : second < 60
  deriving DecidableEq

namespace Timestamp

/-- The parts of a time, the year first. A leap second comes behind the second that it follows. -/
def parts (t : Timestamp) : List Int :=
  [t.date.year, t.date.month, t.date.day, t.hour, t.minute, t.second, t.leap.toNat]

/-- Whether a time lies strictly before `now`. -/
def hasPassed (t now : Timestamp) : Bool := decide (t.parts < now.parts)

/-- The second that is written for a time. -/
def shownSecond (t : Timestamp) : Nat := t.second + t.leap.toNat

/-- A number with at least `width` digits. -/
def padded (width n : Nat) : List Char :=
  let digits := Nat.toDigits 10 n
  List.replicate (width - digits.length) '0' ++ digits

/-- A year: four digits, or a sign and at least four digits outside the years 0 to 9999. -/
def yearText (year : Int) : List Char :=
  if 0 ≤ year ∧ year ≤ 9999 then padded 4 year.natAbs
  else (if year < 0 then '-' else '+') :: padded 4 year.natAbs

/-- The written form of a time, as characters. -/
def chars (t : Timestamp) : List Char :=
  yearText t.date.year ++ '-' :: padded 2 t.date.month ++ '-' :: padded 2 t.date.day ++
    'T' :: padded 2 t.hour ++ ':' :: padded 2 t.minute ++ ':' :: padded 2 t.shownSecond ++ ['Z']

def text (t : Timestamp) : String := String.ofList t.chars

/-- The time a number of minutes later, less than a day away. -/
def shift (minutes : Int) (t : Timestamp) : Timestamp :=
  let total : Int := 60 * t.hour + t.minute + minutes
  let days := total / 1440
  let rest := (total % 1440).toNat
  { t with
    date := if days < 0 then t.date.previous else if 0 < days then t.date.next else t.date
    hour := rest / 60
    minute := rest % 60
    hour_lt := by
      have := Int.emod_lt_of_pos total (show (0 : Int) < 1440 by omega)
      omega
    minute_lt := Nat.mod_lt _ (by omega) }

/-- The seconds from the start of 1970; a leap second counts as the second before it. -/
def epochSeconds (t : Timestamp) : Int :=
  86400 * t.date.dayNumber + 3600 * t.hour + 60 * t.minute + t.second

/-- The first of the times that can be given by seconds. -/
def leastEpoch : Int := -8334601228800

/-- The last of the times that can be given by seconds. -/
def greatestEpoch : Int := 8210266876799

/-- The time a number of seconds after the start of 1970, or the leap second that follows it. -/
def ofEpoch? (seconds : Int) (leap : Bool) : Option Timestamp := do
  guard (leastEpoch ≤ seconds ∧ seconds ≤ greatestEpoch)
  let date ← Date.ofDayNumber? (seconds / 86400)
  let rest := (seconds % 86400).toNat
  if hour_lt : rest / 3600 < 24 then
    some
      { date, hour_lt, leap
        hour := rest / 3600
        minute := rest / 60 % 60
        second := rest % 60
        minute_lt := Nat.mod_lt _ (by omega)
        second_lt := Nat.mod_lt _ (by omega) }
  else none

end Timestamp

end Attest
