import Attest.Calendar.Timestamp
import Mathlib.Tactic.ByContra

/-!
Dates as days on one line. The next date has the next day number and the date before it the number before,
across the ends of months, of leap years and of centuries, so dates come in the order of their numbers and a
number belongs to one date only. A time is then told by its seconds from the start of 1970 and by whether it
is a leap second, and times are ordered in the same way.
-/

namespace Attest

namespace Date

/-! ### Months and years in days -/

def daysInYear (year : Int) : Nat := if isLeapYear year then 366 else 365

theorem daysBeforeYear_succ (year : Int) : daysBeforeYear (year + 1) = daysBeforeYear year + daysInYear year := by
  rw [daysBeforeYear, daysBeforeYear, daysInYear, isLeapYear]
  split
  · rename_i hleap
    simp only [Bool.and_eq_true, Bool.or_eq_true, beq_iff_eq, bne_iff_ne] at hleap
    omega
  · rename_i hcommon
    simp only [Bool.and_eq_true, Bool.or_eq_true, beq_iff_eq, bne_iff_ne] at hcommon
    omega

theorem daysBeforeYear_le {earlier later : Int} (h : earlier ≤ later) :
    daysBeforeYear earlier ≤ daysBeforeYear later := by
  rw [daysBeforeYear, daysBeforeYear]
  omega

@[simp] theorem daysBeforeMonth_zero (year : Int) : daysBeforeMonth year 0 = 0 := rfl

theorem daysBeforeMonth_twelve (year : Int) : daysBeforeMonth year 12 = daysInYear year := by
  simp only [daysBeforeMonth, daysInMonth, daysInYear]
  cases isLeapYear year <;> rfl

/-- The days up to the end of a month are those up to its start and its own. -/
theorem daysBeforeMonth_pred (year : Int) {month : Nat} (h : 1 ≤ month) :
    daysBeforeMonth year month = daysBeforeMonth year (month - 1) + daysInMonth year month := by
  obtain ⟨before, rfl⟩ : ∃ before, month = before + 1 := ⟨month - 1, by omega⟩
  rfl

theorem daysBeforeMonth_le (year : Int) {earlier later : Nat} (h : earlier ≤ later) :
    daysBeforeMonth year earlier ≤ daysBeforeMonth year later := by
  induction h with
  | refl => exact Nat.le_refl _
  | step _ ih => exact Nat.le_trans ih (Nat.le_add_right _ _)

/-- The day of a date in its year, the first one being 1. -/
def dayOfYear (d : Date) : Nat := daysBeforeMonth d.year (d.month - 1) + d.day

theorem dayNumber_eq (d : Date) : d.dayNumber = daysBeforeYear d.year + d.dayOfYear - 1 - epochDay := by
  rw [dayNumber, dayOfYear]
  omega

/-- A date lies in its month. -/
theorem dayOfYear_le_month (d : Date) : d.dayOfYear ≤ daysBeforeMonth d.year d.month := by
  rw [dayOfYear, daysBeforeMonth_pred d.year d.month_pos]
  exact Nat.add_le_add_left d.day_le _

theorem dayOfYear_pos (d : Date) : 1 ≤ d.dayOfYear := Nat.le_trans d.day_pos (Nat.le_add_left _ _)

theorem dayOfYear_le (d : Date) : d.dayOfYear ≤ daysInYear d.year := by
  rw [← daysBeforeMonth_twelve]
  exact Nat.le_trans d.dayOfYear_le_month (daysBeforeMonth_le d.year d.month_le)

/-! ### Neighbours -/

theorem dayNumber_next (d : Date) : d.next.dayNumber = d.dayNumber + 1 := by
  have hmonth := daysBeforeMonth_pred d.year d.month_pos
  have hday := d.day_le
  rw [dayNumber_eq, dayNumber_eq, dayOfYear, dayOfYear]
  unfold next
  split
  · dsimp only
    omega
  · split
    · simp only [Nat.add_sub_cancel]
      omega
    · -- The last day of December: the year is over.
      rename_i hlast hdecember
      have htwelve : d.month = 12 := Nat.le_antisymm d.month_le (by omega)
      have hend := daysBeforeMonth_twelve d.year
      have hyear := daysBeforeYear_succ d.year
      rw [htwelve] at hmonth hlast hday ⊢
      simp only [Nat.sub_self, daysBeforeMonth_zero]
      omega

theorem dayNumber_previous (d : Date) : d.previous.dayNumber = d.dayNumber - 1 := by
  have hday := d.day_pos
  have hpos := d.month_pos
  rw [dayNumber_eq, dayNumber_eq, dayOfYear, dayOfYear]
  unfold previous
  split
  · dsimp only
    omega
  · split
    · rename_i hfirst hmonth
      have hbefore := daysBeforeMonth_pred d.year hmonth
      dsimp only
      omega
    · -- The first day of January: the year before ends with the 31st of December.
      have hjanuary : d.month = 1 := by omega
      have hend := daysBeforeMonth_twelve (d.year - 1)
      have hdecember := daysBeforeMonth_pred (d.year - 1) (by decide : 1 ≤ 12)
      have hdays : daysInMonth (d.year - 1) 12 = 31 := rfl
      have hyear := daysBeforeYear_succ (d.year - 1)
      rw [Int.sub_add_cancel] at hyear
      rw [hjanuary]
      simp only [Nat.sub_self, daysBeforeMonth_zero]
      omega

/-! ### Order -/

/-- Whether a date comes before another, by the year, the month and the day. -/
def Before (d e : Date) : Prop :=
  d.year < e.year ∨ d.year = e.year ∧ (d.month < e.month ∨ d.month = e.month ∧ d.day < e.day)

theorem ext_parts {d e : Date} (hyear : d.year = e.year) (hmonth : d.month = e.month) (hday : d.day = e.day) :
    d = e := by
  cases d
  cases e
  cases hyear
  cases hmonth
  cases hday
  rfl

/-- Dates come in the order of their day numbers. -/
theorem dayNumber_lt_of_before {d e : Date} (h : d.Before e) : d.dayNumber < e.dayNumber := by
  have hfirst := e.dayOfYear_pos
  rw [dayNumber_eq, dayNumber_eq]
  rcases h with hyear | ⟨hyear, hmonth | ⟨hmonth, hday⟩⟩
  · have hend := d.dayOfYear_le
    have hsucc := daysBeforeYear_succ d.year
    have hle := daysBeforeYear_le hyear
    omega
  · have hend := d.dayOfYear_le_month
    have hle := daysBeforeMonth_le e.year (Nat.le_sub_one_of_lt hmonth)
    have hstart : daysBeforeMonth e.year (e.month - 1) < e.dayOfYear := Nat.lt_add_of_pos_right e.day_pos
    rw [hyear] at hend ⊢
    omega
  · rw [dayOfYear, dayOfYear, hyear, hmonth]
    omega

theorem before_or_eq_or_before (d e : Date) : d.Before e ∨ d = e ∨ e.Before d := by
  rcases Int.lt_trichotomy d.year e.year with hyear | hyear | hyear
  · exact .inl (.inl hyear)
  · rcases Nat.lt_trichotomy d.month e.month with hmonth | hmonth | hmonth
    · exact .inl (.inr ⟨hyear, .inl hmonth⟩)
    · rcases Nat.lt_trichotomy d.day e.day with hday | hday | hday
      · exact .inl (.inr ⟨hyear, .inr ⟨hmonth, hday⟩⟩)
      · exact .inr (.inl (ext_parts hyear hmonth hday))
      · exact .inr (.inr (.inr ⟨hyear.symm, .inr ⟨hmonth.symm, hday⟩⟩))
    · exact .inr (.inr (.inr ⟨hyear.symm, .inl hmonth⟩))
  · exact .inr (.inr (.inl hyear))

theorem dayNumber_injective {d e : Date} (h : d.dayNumber = e.dayNumber) : d = e := by
  rcases before_or_eq_or_before d e with hbefore | heq | hafter
  · exact absurd h (Int.ne_of_lt (dayNumber_lt_of_before hbefore))
  · exact heq
  · exact absurd h (Int.ne_of_gt (dayNumber_lt_of_before hafter))

/-! ### The date of a day number -/

theorem daysBeforeYear_yearOfDay_le (day : Int) : daysBeforeYear (yearOfDay day) ≤ day := by
  unfold yearOfDay
  simp only
  split
  · rw [daysBeforeYear]
    omega
  · split <;> omega

theorem lt_daysBeforeYear_yearOfDay (day : Int) : day < daysBeforeYear (yearOfDay day + 1) := by
  unfold yearOfDay
  simp only
  split
  · rwa [Int.sub_add_cancel]
  · split
    · rw [daysBeforeYear]
      omega
    · omega

/-- A day lies in a year or a later one exactly from the first day of that year on. -/
theorem le_yearOfDay_iff (year day : Int) : year ≤ yearOfDay day ↔ daysBeforeYear year ≤ day := by
  constructor
  · intro h
    exact Int.le_trans (daysBeforeYear_le h) (daysBeforeYear_yearOfDay_le day)
  · intro h
    by_contra hlater
    have hnext : daysBeforeYear (yearOfDay day + 1) ≤ daysBeforeYear year :=
      daysBeforeYear_le (by omega)
    have hbefore := lt_daysBeforeYear_yearOfDay day
    omega

/-- Walking through the months keeps the day of the year. -/
theorem monthOfDay_eq {year : Int} {count month day : Nat} (hmonth : 1 ≤ month) :
    daysBeforeMonth year ((monthOfDay year count month day).1 - 1) + (monthOfDay year count month day).2 =
      daysBeforeMonth year (month - 1) + day + 1 := by
  induction count generalizing month day with
  | zero => rfl
  | succ count ih =>
      rw [monthOfDay]
      split
      · rfl
      · have hnext := @ih (month + 1) (day - daysInMonth year month) (Nat.le_add_left 1 month)
        have hdays := daysBeforeMonth_pred year hmonth
        rw [Nat.add_sub_cancel] at hnext
        omega

theorem parts_of_ofParts? {year : Int} {month day : Nat} {d : Date} (h : ofParts? year month day = some d) :
    d.year = year ∧ d.month = month ∧ d.day = day := by
  rw [ofParts?] at h
  split at h
  · cases h
    exact ⟨rfl, rfl, rfl⟩
  · cases h

theorem dayNumber_of_ofDayNumber? {number : Int} {d : Date} (h : ofDayNumber? number = some d) :
    d.dayNumber = number := by
  obtain ⟨year, hyear⟩ : ∃ year, yearOfDay (number + epochDay) = year := ⟨_, rfl⟩
  obtain ⟨day, hday⟩ : ∃ day, (number + epochDay - daysBeforeYear year).toNat = day := ⟨_, rfl⟩
  have hfirst := daysBeforeYear_yearOfDay_le (number + epochDay)
  rw [ofDayNumber?, hyear] at h
  rw [hyear] at hfirst
  dsimp only at h
  rw [hday] at h
  obtain ⟨hyears, hmonths, hdays⟩ := parts_of_ofParts? h
  have hwalk := @monthOfDay_eq year 11 1 day (Nat.le_refl 1)
  rw [Nat.sub_self, daysBeforeMonth_zero, ← hmonths, ← hdays] at hwalk
  rw [dayNumber_eq, dayOfYear, hyears, hwalk]
  omega

end Date

namespace Timestamp

/-! ### Times as seconds -/

/-- A time in whole minutes has its minute, counted from the start of 1970, and its second in it. -/
theorem epochSeconds_shift {minutes : Int} (h : minutes.natAbs < 1440) (t : Timestamp) :
    (t.shift minutes).epochSeconds = t.epochSeconds + 60 * minutes := by
  have hhour := t.hour_lt
  have hminute := t.minute_lt
  have hnext := t.date.dayNumber_next
  have hprevious := t.date.dayNumber_previous
  rw [epochSeconds, epochSeconds, shift]
  dsimp only
  split
  · omega
  · split <;> omega

/-- Times come in the order of their seconds, and a leap second comes behind the second before it. -/
theorem hasPassed_iff_epochSeconds (t now : Timestamp) : t.hasPassed now = true ↔
    t.epochSeconds < now.epochSeconds ∨ t.epochSeconds = now.epochSeconds ∧ t.leap.toNat < now.leap.toNat := by
  have hhour := t.hour_lt
  have hminute := t.minute_lt
  have hsecond := t.second_lt
  have hhour' := now.hour_lt
  have hminute' := now.minute_lt
  have hsecond' := now.second_lt
  rw [hasPassed, decide_eq_true_iff, parts, parts, epochSeconds, epochSeconds]
  simp only [List.cons_lt_cons_iff, List.not_lt_nil, and_false, or_false]
  rcases Date.before_or_eq_or_before t.date now.date with hbefore | heq | hafter
  · have hday := Date.dayNumber_lt_of_before hbefore
    rw [Date.Before] at hbefore
    omega
  · rw [heq]
    omega
  · have hday := Date.dayNumber_lt_of_before hafter
    rw [Date.Before] at hafter
    omega

/-- A time is told by its seconds and by whether it is a leap second. -/
theorem ext_epochSeconds {t u : Timestamp} (hseconds : t.epochSeconds = u.epochSeconds)
    (hleap : t.leap = u.leap) : t = u := by
  have hhour := t.hour_lt
  have hminute := t.minute_lt
  have hsecond := t.second_lt
  have hhour' := u.hour_lt
  have hminute' := u.minute_lt
  have hsecond' := u.second_lt
  rw [epochSeconds, epochSeconds] at hseconds
  have hdate : t.date = u.date := Date.dayNumber_injective (by omega)
  rw [hdate] at hseconds
  exact Timestamp.ext hdate (by omega) (by omega) (by omega) hleap

/-- A time that is made from seconds lies at these seconds. -/
theorem epochSeconds_of_ofEpoch? {seconds : Int} {leap : Bool} {t : Timestamp} (h : ofEpoch? seconds leap = some t) :
    t.epochSeconds = seconds ∧ t.leap = leap := by
  obtain ⟨-, -, h⟩ := Option.bind_eq_some_iff.mp h
  obtain ⟨date, hdate, h⟩ := Option.bind_eq_some_iff.mp h
  have hday := Date.dayNumber_of_ofDayNumber? hdate
  dsimp only at h
  split at h
  · cases h
    rw [epochSeconds]
    simp only [hday, and_true]
    omega
  · cases h

end Timestamp

/-- The first second of the year 2024. -/
def Sample.newYear : Timestamp where
  date := ⟨2024, 1, 1, by decide, by decide, by decide, by decide⟩
  hour := 0
  minute := 0
  second := 0
  leap := false
  hour_lt := by decide
  minute_lt := by decide
  second_lt := by decide

namespace Timestamp.Sample

/-- The last second of the year 2016. -/
def yearEnd : Timestamp where
  date := ⟨2016, 12, 31, Nat.succ_pos _, Nat.le_refl _, by decide, by decide⟩
  hour := 23
  minute := 59
  second := 59
  leap := false
  hour_lt := by decide
  minute_lt := by decide
  second_lt := by decide

/-- The leap second behind it. -/
def leapSecond : Timestamp := { yearEnd with leap := true }

/-- A leap second within a minute, behind the fourth second after a noon. -/
def withinMinute : Timestamp :=
  { Sample.newYear with hour := 12, second := 4, leap := true, hour_lt := by decide, second_lt := by decide }

end Timestamp.Sample

end Attest
