import Attest.Calendar.Rfc3339
import Attest.Proofs.Outcome
import Attest.Proofs.Text.Ascii

/-!
Times survive being written and read. A time of the years 0 to 9999 is written with four digits for its
year and without an offset, and what is read from that text is the time that the text tells: the time itself, also if
it is the second 60 of its minute. Only a leap second that follows another second than the last of a minute is written
as the second behind it, and is read as that one. Any other year is written with a sign, and the text is then not read
as a time.
-/

namespace Attest

open Ascii (byte)

theorem daysInMonth_le (year : Int) (month : Nat) : daysInMonth year month ≤ 31 := by
  unfold daysInMonth
  split
  · split <;> omega
  · split <;> omega

namespace Timestamp

/-! ### What a text can tell -/

/-- A time that is no leap second, or the one at the end of its minute. -/
def Regular (t : Timestamp) : Prop := t.leap = true → t.second = 59

instance (t : Timestamp) : Decidable t.Regular := inferInstanceAs (Decidable (_ → _))

/-- The time that the text of a time tells. A leap second within a minute has the text of the second behind it. -/
def told (t : Timestamp) : Timestamp :=
  if h : t.leap = true ∧ t.second < 59 then
    { t with second := t.second + 1, leap := false, second_lt := Nat.succ_lt_succ h.2 }
  else t

theorem told_eq_self {t : Timestamp} : t.told = t ↔ t.Regular := by
  rw [told, Regular]
  split
  · rename_i h
    constructor
    · intro heq
      exact absurd (congrArg Timestamp.second heq) (Nat.succ_ne_self _)
    · intro hregular
      exact absurd (hregular h.1) (Nat.ne_of_lt h.2)
  · rename_i h
    have hsecond := t.second_lt
    refine iff_of_true rfl fun hleap => ?_
    rw [and_iff_right hleap] at h
    omega

theorem regular_told (t : Timestamp) : t.told.Regular := by
  have hsecond := t.second_lt
  rw [told]
  split
  · exact nofun
  · rename_i h
    intro hleap
    rw [and_iff_right hleap] at h
    omega

@[simp] theorem date_told (t : Timestamp) : t.told.date = t.date := by
  rw [told]
  split <;> rfl

@[simp] theorem hour_told (t : Timestamp) : t.told.hour = t.hour := by
  rw [told]
  split <;> rfl

@[simp] theorem minute_told (t : Timestamp) : t.told.minute = t.minute := by
  rw [told]
  split <;> rfl

@[simp] theorem shownSecond_told (t : Timestamp) : t.told.shownSecond = t.shownSecond := by
  rw [told]
  split
  · rename_i h
    rw [shownSecond, shownSecond, h.1]
    rfl
  · rfl

/-- The second behind a leap second within a minute is no leap second. -/
theorem told_of_not_regular {t : Timestamp} (h : ¬ t.Regular) :
    t.leap = true ∧ t.told.leap = false ∧ t.told.epochSeconds = t.epochSeconds + 1 := by
  have hsecond := t.second_lt
  rw [Regular, Classical.not_imp] at h
  rw [told, dif_pos ⟨h.1, by omega⟩]
  refine ⟨h.1, rfl, ?_⟩
  simp only [epochSeconds]
  omega

/-- In a time that a text can tell the second 60 is the leap second. -/
theorem Regular.toNat_leap {t : Timestamp} (h : t.Regular) : t.leap.toNat = t.shownSecond / 60 := by
  rw [shownSecond]
  cases hleap : t.leap with
  | false => exact (Nat.div_eq_of_lt t.second_lt).symm
  | true => rw [h hleap, Bool.toNat_true]

/-- Times that texts can tell are in the order of the seconds that are written for them, as long as they lie in one
minute. -/
theorem shownSecond_lt_iff {t u : Timestamp} (ht : t.Regular) (hu : u.Regular) :
    t.shownSecond < u.shownSecond ↔ t.second < u.second ∨ t.second = u.second ∧ t.leap.toNat < u.leap.toNat := by
  have hlt := t.second_lt
  have hlt' := u.second_lt
  have hleap := ht.toNat_leap
  have hleap' := hu.toNat_leap
  rw [shownSecond] at hleap hleap' ⊢
  rw [shownSecond]
  omega

/-- Times that texts can tell are the same if the same is written for them. -/
theorem ext_shownSecond {t u : Timestamp} (ht : t.Regular) (hu : u.Regular) (hdate : t.date = u.date)
    (hhour : t.hour = u.hour) (hminute : t.minute = u.minute) (hsecond : t.shownSecond = u.shownSecond) : t = u := by
  have hinjective : ∀ a b : Bool, a.toNat = b.toNat → a = b := by decide
  have hleap : t.leap = u.leap := hinjective _ _ (by rw [ht.toNat_leap, hu.toNat_leap, hsecond])
  rw [shownSecond, shownSecond, hleap] at hsecond
  exact Timestamp.ext hdate hhour hminute (Nat.add_right_cancel hsecond) hleap

/-! ### Numbers in texts -/

/-- A date and a time of day as they stand in a text. -/
def clockText (year : List Char) (month day hour minute second : Nat) : List Char :=
  year ++ '-' :: padded 2 month ++ '-' :: padded 2 day ++
    'T' :: padded 2 hour ++ ':' :: padded 2 minute ++ ':' :: padded 2 second

/-- The text of a time without the letter at its end. -/
def clockChars (t : Timestamp) : List Char :=
  clockText (yearText t.date.year) t.date.month t.date.day t.hour t.minute t.shownSecond

/-- Numbers of a date and of a time of day that fit into the digits that a text has for them. -/
structure FitDigits (year month day hour minute second : Nat) : Prop where
  year_lt : year < 10000
  month_lt : month < 100
  day_lt : day < 100
  hour_lt : hour < 100
  minute_lt : minute < 100
  second_lt : second < 100

theorem chars_eq (t : Timestamp) : t.chars = t.clockChars ++ ['Z'] := rfl

/-- All digits of a number but the last one are those of its tenth. -/
theorem padded_succ (width n : Nat) :
    padded (width + 2) n = padded (width + 1) (n / 10) ++ [Nat.digitChar (n % 10)] := by
  rcases Nat.lt_or_ge n 10 with hsmall | hlarge
  · have htenth : n / 10 = 0 := Nat.div_eq_of_lt hsmall
    have hlast : n % 10 = n := Nat.mod_eq_of_lt hsmall
    rw [padded, padded, htenth, hlast, Nat.toDigits_of_lt_base hsmall, Nat.toDigits_zero]
    show List.replicate (width + 1) '0' ++ _ = List.replicate width '0' ++ ['0'] ++ _
    rw [List.replicate_succ']
  · have hdigits := Nat.toDigits_of_base_le (by decide) hlarge
    have hlength : (Nat.toDigits 10 n).length = (Nat.toDigits 10 (n / 10)).length + 1 := by
      rw [hdigits, List.length_append, List.length_singleton]
    have hzeros : width + 2 - ((Nat.toDigits 10 (n / 10)).length + 1) =
        width + 1 - (Nat.toDigits 10 (n / 10)).length := by omega
    rw [padded, padded, hlength, hzeros, hdigits, List.append_assoc]

theorem padded_one {n : Nat} (h : n < 10) : padded 1 n = [Nat.digitChar n] := by
  rw [padded, Nat.toDigits_of_lt_base h]
  rfl

theorem padded_two {n : Nat} (h : n < 100) :
    padded 2 n = [Nat.digitChar (n / 10), Nat.digitChar (n % 10)] := by
  rw [padded_succ, padded_one (by omega)]
  rfl

theorem padded_four {n : Nat} (h : n < 10000) :
    padded 4 n = padded 2 (n / 100) ++ padded 2 (n % 100) := by
  have hthird : n / 10 % 10 = n % 100 / 10 := by omega
  have hlast : n % 10 = n % 100 % 10 := by omega
  rw [padded_succ, padded_succ, Nat.div_div_eq_div_mul n 10 10, padded_two (n := n / 100) (by omega),
    padded_two (n := n % 100) (by omega), hthird, hlast]
  rfl

end Timestamp

namespace Rfc3339

theorem digit_digitChar : ∀ n < 10, (Nat.digitChar n).toNat < 128 ∧
    Ascii.isDigit (byte (Nat.digitChar n)) = true ∧ Ascii.digitValue (byte (Nat.digitChar n)) = n := by
  decide

theorem twoDigits_digitChar {a b : Nat} (ha : a < 10) (hb : b < 10) :
    twoDigits (byte (Nat.digitChar a)) (byte (Nat.digitChar b)) = .ok (10 * a + b) := by
  obtain ⟨-, hdigit, hvalue⟩ := digit_digitChar a ha
  obtain ⟨-, hdigit', hvalue'⟩ := digit_digitChar b hb
  rw [twoDigits, hdigit, hdigit', hvalue, hvalue']
  rfl

theorem twoDigits_parts {n : Nat} (h : n < 100) :
    twoDigits (byte (Nat.digitChar (n / 10))) (byte (Nat.digitChar (n % 10))) = .ok n := by
  rw [twoDigits_digitChar (by omega) (by omega)]
  exact congrArg Except.ok (by omega)

theorem expect_self (c : Char) : expect (byte c) c = .ok () := by
  rw [expect, beq_self_eq_true, if_pos rfl]

theorem parts_of_localTime {date : Date} {hour minute second : Nat} {t : Timestamp}
    (h : localTime date hour minute second = .ok t) :
    t.date = date ∧ t.hour = hour ∧ t.minute = minute ∧ t.shownSecond = second ∧ t.Regular := by
  rw [localTime] at h
  split at h
  · rename_i hparts
    cases h
    refine ⟨rfl, rfl, rfl, ?_, fun hleap => ?_⟩
    · show min second 59 + (second == 60).toNat = second
      rcases Nat.lt_or_eq_of_le hparts.2.2 with hlt | rfl
      · rw [beq_false_of_ne (Nat.ne_of_lt hlt), Nat.min_eq_left (Nat.le_of_lt_succ hlt)]
        rfl
      · rfl
    · have hsixty : second = 60 := eq_of_beq hleap
      show min second 59 = 59
      rw [hsixty]
      rfl
  · cases h

/-- The numbers that are written for a time of day are those of the time that its text tells. -/
theorem localTime_shownSecond (t : Timestamp) :
    localTime t.date t.hour t.minute t.shownSecond = .ok t.told := by
  have hshown : t.shownSecond ≤ 60 := Nat.add_le_add (Nat.le_of_lt_succ t.second_lt) t.leap.toNat_le
  obtain ⟨u, hu⟩ : ∃ u, localTime t.date t.hour t.minute t.shownSecond = .ok u :=
    ⟨_, dif_pos ⟨t.hour_lt, t.minute_lt, hshown⟩⟩
  obtain ⟨hdate, hhour, hminute, hsecond, hregular⟩ := parts_of_localTime hu
  rw [hu, Timestamp.ext_shownSecond hregular t.regular_told (by simpa) (by simpa) (by simpa) (by simpa)]

/-- What is read behind the numbers of a date and a time of day. -/
def readBehind (date : Date) (hour minute second : Nat) (rest : Bytes) : Except TimeFault Timestamp := do
  let rest ← skipFraction rest
  let time ← localTime date hour minute second
  let (minutes, rest) ← offset rest
  unless rest.isEmpty do throw .trailing
  unless minutes.natAbs < minutesOfDay do throw .outOfRange
  return time.shift (-minutes)

/-- A date and a time of day in a text are read as their numbers. -/
theorem read_clockText {year month day hour minute second : Nat}
    (h : Timestamp.FitDigits year month day hour minute second) (rest : Bytes) :
    read ((Timestamp.clockText (Timestamp.padded 4 year) month day hour minute second).map byte ++ rest) =
      match Date.ofParts? year month day with
      | some date => readBehind date hour minute second rest
      | none => .error .outOfRange := by
  obtain ⟨hyear, hmonth, hday, hhour, hminute, hsecond⟩ := h
  have hcentury : year / 100 < 100 := Nat.div_lt_of_lt_mul hyear
  have hrest : year % 100 < 100 := Nat.mod_lt _ (by decide)
  have hparts : ((100 * (year / 100) + year % 100 : Nat) : Int) = year := congrArg Nat.cast (Nat.div_add_mod year 100)
  rw [Timestamp.clockText, Timestamp.padded_four hyear, Timestamp.padded_two hcentury, Timestamp.padded_two hrest,
    Timestamp.padded_two hmonth, Timestamp.padded_two hday, Timestamp.padded_two hhour, Timestamp.padded_two hminute,
    Timestamp.padded_two hsecond]
  simp only [List.cons_append, List.nil_append, List.map_cons, List.map_nil, read]
  simp only [twoDigits_parts hcentury, twoDigits_parts hrest, twoDigits_parts hmonth, twoDigits_parts hday,
    twoDigits_parts hhour, twoDigits_parts hminute, twoDigits_parts hsecond, expect_self, ok_bind, hparts]
  cases Date.ofParts? year month day <;> rfl

/-- A text that is long enough is refused at a first character that is not a digit. -/
theorem read_of_not_digit {b : UInt8} {rest : Bytes} (hb : Ascii.isDigit b = false)
    (hlength : 18 ≤ rest.length) : read (b :: rest) = .error .invalid := by
  -- The first character is looked at only in a text that has room for all the parts up to the second.
  iterate 18
    rcases rest with _ | ⟨_, rest⟩
    · exact absurd hlength (by simp)
  rw [read, twoDigits, hb]
  rfl

end Rfc3339

namespace Timestamp

theorem shift_zero (t : Timestamp) : t.shift (-0) = t := by
  obtain ⟨date, hour, minute, second, leap, hhour, hminute, hsecond⟩ := t
  obtain ⟨total, htotal⟩ : ∃ total : Int, 60 * (hour : Int) + minute + -0 = total := ⟨_, rfl⟩
  have hdays : total / 1440 = 0 := by omega
  have hhours : (total % 1440).toNat / 60 = hour := by omega
  have hminutes : (total % 1440).toNat % 60 = minute := by omega
  simp only [shift, htotal, hdays, Int.lt_irrefl, if_false, hhours, hminutes]

theorem ascii_padded (width n : Nat) : ∀ c ∈ padded width n, c.toNat < 128 := by
  intro c hc
  rcases List.mem_append.mp hc with hzero | hdigit
  · rw [List.eq_of_mem_replicate hzero]
    decide
  · exact Ascii.lt_of_isDigit (Nat.isDigit_of_mem_toDigits (by decide) (by decide) hdigit)

theorem ascii_yearText (year : Int) : ∀ c ∈ yearText year, c.toNat < 128 := by
  intro c hc
  rw [yearText] at hc
  split at hc
  · exact ascii_padded _ _ c hc
  · rcases List.mem_cons.mp hc with rfl | hc
    · split <;> decide
    · exact ascii_padded _ _ c hc

theorem ascii_clockText {year : List Char} (hyear : ∀ c ∈ year, c.toNat < 128)
    (month day hour minute second : Nat) : ∀ c ∈ clockText year month day hour minute second, c.toNat < 128 := by
  intro c hc
  rw [clockText] at hc
  simp only [List.mem_append, List.mem_cons] at hc
  have hpadded (width n : Nat) := ascii_padded width n c
  rcases hc with ((((h | rfl | h) | rfl | h) | rfl | h) | rfl | h) | rfl | h
  · exact hyear c h
  all_goals first | exact hpadded _ _ h | decide

theorem ascii_clockChars (t : Timestamp) : ∀ c ∈ t.clockChars, c.toNat < 128 :=
  ascii_clockText (ascii_yearText _) _ _ _ _ _

theorem ascii_chars (t : Timestamp) : ∀ c ∈ t.chars, c.toNat < 128 := by
  rw [chars_eq, List.forall_mem_append]
  exact ⟨t.ascii_clockChars, List.forall_mem_singleton.mpr (by decide)⟩

theorem text_told (t : Timestamp) : t.told.text = t.text := by
  simp only [text, chars, date_told, hour_told, minute_told, shownSecond_told]

theorem ofString_text (t : Timestamp) : Bytes.ofString t.text = t.chars.map byte := by
  rw [text, Bytes.ofString_ofList, Ascii.ofChars_ascii t.ascii_chars]

/-- A time with a year that is written in four digits. -/
def FourDigitYear (t : Timestamp) : Prop := 0 ≤ t.date.year ∧ t.date.year ≤ 9999

instance (t : Timestamp) : Decidable t.FourDigitYear := inferInstanceAs (Decidable (_ ∧ _))

theorem fourDigitYear_told {t : Timestamp} : t.told.FourDigitYear ↔ t.FourDigitYear := by
  rw [FourDigitYear, FourDigitYear, date_told]

/-- What is read from the text of a time. -/
def reread (t : Timestamp) : Except TimeError Timestamp :=
  if t.FourDigitYear then .ok t.told else .error (.malformed t.text .invalid)

theorem yearText_eq_padded {t : Timestamp} (h : t.FourDigitYear) :
    yearText t.date.year = padded 4 t.date.year.natAbs := by
  rw [yearText, if_pos ⟨h.1, h.2⟩]

theorem FourDigitYear.fitDigits {t : Timestamp} (h : t.FourDigitYear) :
    FitDigits t.date.year.natAbs t.date.month t.date.day t.hour t.minute t.shownSecond where
  year_lt := by
    obtain ⟨hleast, hgreatest⟩ := h
    omega
  month_lt := Nat.lt_of_le_of_lt t.date.month_le (by decide)
  day_lt := Nat.lt_of_le_of_lt (Nat.le_trans t.date.day_le (daysInMonth_le _ _)) (by decide)
  hour_lt := Nat.lt_trans t.hour_lt (by decide)
  minute_lt := Nat.lt_trans t.minute_lt (by decide)
  second_lt := by
    have hsecond := t.second_lt
    have hleap := t.leap.toNat_le
    rw [shownSecond]
    omega

/-- A time of day is read as local time, and the offset behind it takes it to UTC. -/
theorem read_clockChars {t : Timestamp} (h : t.FourDigitYear) {rest ending : Bytes} {minutes : Int}
    (hfraction : Rfc3339.skipFraction rest = .ok ending) (hoffset : Rfc3339.offset ending = .ok (minutes, []))
    (hminutes : minutes.natAbs < Rfc3339.minutesOfDay) :
    Rfc3339.read (t.clockChars.map byte ++ rest) = .ok (t.told.shift (-minutes)) := by
  have hyear : (t.date.year.natAbs : Int) = t.date.year := Int.natAbs_of_nonneg h.1
  have hdate : Date.ofParts? t.date.year.natAbs t.date.month t.date.day = some t.date := by
    rw [hyear, Date.ofParts?, dif_pos ⟨⟨t.date.month_pos, t.date.month_le⟩, t.date.day_pos, t.date.day_le⟩]
  have hlocal := Rfc3339.localTime_shownSecond t
  rw [clockChars, yearText_eq_padded h, Rfc3339.read_clockText h.fitDigits, hdate]
  show (Rfc3339.skipFraction rest >>= _) = _
  rw [hfraction, ok_bind, hlocal, ok_bind, hoffset, ok_bind]
  simp only [List.isEmpty_nil, if_true, if_pos hminutes]
  rfl

theorem read_chars {t : Timestamp} (h : t.FourDigitYear) : Rfc3339.read (t.chars.map byte) = .ok t.told := by
  have hletter : Rfc3339.offset [byte 'Z'] = .ok (0, []) := rfl
  rw [chars_eq, List.map_append, read_clockChars h rfl hletter (by decide), shift_zero]

theorem le_length_padded (width n : Nat) : width ≤ (padded width n).length := by
  rw [padded, List.length_append, List.length_replicate]
  omega

/-- A year of fewer or more than four digits is written with a sign in front. -/
theorem read_chars_signed {t : Timestamp} (h : ¬ t.FourDigitYear) :
    Rfc3339.read (t.chars.map byte) = .error .invalid := by
  have hsign : Ascii.isDigit (byte (if t.date.year < 0 then '-' else '+')) = false := by
    split <;> decide
  rw [FourDigitYear] at h
  rw [chars, yearText, if_neg h]
  simp only [List.cons_append, List.map_cons]
  refine Rfc3339.read_of_not_digit hsign ?_
  have hyear := le_length_padded 4 t.date.year.natAbs
  have hmonth := le_length_padded 2 t.date.month
  have hday := le_length_padded 2 t.date.day
  have hhour := le_length_padded 2 t.hour
  have hminute := le_length_padded 2 t.minute
  have hsecond := le_length_padded 2 t.shownSecond
  simp only [List.length_append, List.length_cons, List.length_map]
  omega

/-- A text is read as the time it tells if the year stands there in four digits, and else not at all. -/
theorem parseLenient_text (t : Timestamp) : parseLenient t.text = t.reread := by
  rw [parseLenient, ofString_text, reread]
  split
  · rename_i h
    rw [read_chars h]
    rfl
  · rename_i h
    rw [read_chars_signed h]
    rfl

theorem reread_eq_ok {t time : Timestamp} : t.reread = .ok time ↔ t.FourDigitYear ∧ t.told = time := by
  rw [reread]
  split
  · rename_i h
    rw [Except.ok.injEq, and_iff_right h]
  · rename_i h
    exact ⟨nofun, fun hyear => absurd hyear.1 h⟩

/-- The text of a time ends as it must. -/
theorem parse_text (t : Timestamp) : parse t.text = t.reread := by
  have hlast : t.text.toList.getLast? = some 'Z' := by
    rw [text, String.toList_ofList, chars, List.getLast?_concat]
  rw [parse, if_pos hlast, parseLenient_text]

end Timestamp

end Attest
