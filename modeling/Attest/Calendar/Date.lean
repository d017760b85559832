/-!
Dates of the Gregorian calendar, extended to all years, and the count of days between them.
-/

namespace Attest

/-- Whether a year has a 29th of February. -/
def isLeapYear (year : Int) : Bool :=
  year % 4 == 0 && (year % 100 != 0 || year % 400 == 0)

def daysInMonth (year : Int) (month : Nat) : Nat :=
  if month = 2 then (if isLeapYear year then 29 else 28)
  else if month = 4 ∨ month = 6 ∨ month = 9 ∨ month = 11 then 30
  else 31

theorem daysInMonth_pos (year : Int) (month : Nat) : 1 ≤ daysInMonth year month := by
  unfold daysInMonth
  split
  · split <;> omega
  · split <;> omega

structure Date where
  year : Int
  month : Nat
  day : Nat
  month_pos : 1 ≤ month
  month_le : month ≤ 12
  day_pos : 1 ≤ day
  day_le : day ≤ daysInMonth year month
  deriving DecidableEq

namespace Date

/-- The date with these parts, if the calendar has it. -/
def ofParts? (year : Int) (month day : Nat) : Option Date :=
  if h : (1 ≤ month ∧ month ≤ 12) ∧ 1 ≤ day ∧ day ≤ daysInMonth year month then
    some ⟨year, month, day, h.1.1, h.1.2, h.2.1, h.2.2⟩
  else none

def next (d : Date) : Date :=
  if h : d.day + 1 ≤ daysInMonth d.year d.month then
    { d with day := d.day + 1, day_pos := by omega, day_le := h }
  else if h : d.month + 1 ≤ 12 then
    ⟨d.year, d.month + 1, 1, by omega, h, by omega, daysInMonth_pos _ _⟩
  else ⟨d.year + 1, 1, 1, by omega, by omega, by omega, daysInMonth_pos _ _⟩

def previous (d : Date) : Date :=
  if h : 1 ≤ d.day - 1 then
    { d with day := d.day - 1, day_pos := h, day_le := by have := d.day_le; omega }
  else if h : 1 ≤ d.month - 1 then
    ⟨d.year, d.month - 1, daysInMonth d.year (d.month - 1), h, by have := d.month_le; omega,
      daysInMonth_pos _ _, Nat.le_refl _⟩
  else ⟨d.year - 1, 12, 31, by omega, by omega, by omega, by simp [daysInMonth]⟩

/-- The days from the first day of the year 0 to the first day of a year. -/
def daysBeforeYear (year : Int) : Int :=
  365 * year + (year + 3) / 4 - (year + 99) / 100 + (year + 399) / 400

/-- The days from the first day of a year to the first day of its month `month + 1`. -/
def daysBeforeMonth (year : Int) : (month : Nat) → Nat
  | 0 => 0
  | month + 1 => daysBeforeMonth year month + daysInMonth year (month + 1)

/-- The first day of 1970, counted from the first day of the year 0. -/
def epochDay : Int := 719528

/-- The day of a date, counted from the first day of 1970. -/
def dayNumber (d : Date) : Int :=
  daysBeforeYear d.year + daysBeforeMonth d.year (d.month - 1) + (d.day - 1) - epochDay

/-- The year of a day counted from the first day of the year 0. The mean length of a year gives it
up to one. -/
def yearOfDay (day : Int) : Int :=
  let year := 400 * day / 146097
  if day < daysBeforeYear year then year - 1
  else if daysBeforeYear (year + 1) ≤ day then year + 1
  else year

/-- The month and the day in it of a day counted from the first day of `month`, among at most
`count` months. -/
def monthOfDay (year : Int) : (count : Nat) → (month day : Nat) → Nat × Nat
  | 0, month, day => (month, day + 1)
  | count + 1, month, day =>
    if day < daysInMonth year month then (month, day + 1)
    else monthOfDay year count (month + 1) (day - daysInMonth year month)

/-- The date of a day counted from the first day of 1970. -/
def ofDayNumber? (day : Int) : Option Date :=
  let year := yearOfDay (day + epochDay)
  let (month, day) := monthOfDay year 11 1 (day + epochDay - daysBeforeYear year).toNat
  ofParts? year month day

end Date

end Attest
