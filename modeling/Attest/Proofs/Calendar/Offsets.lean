import Attest.Proofs.Calendar.Days
import Attest.Proofs.Calendar.RoundTrip

/-!
Times written at an offset from UTC. One moment has one local time at every offset of whole minutes, and the
text of that local time, with any digits of a fraction behind the second and with the offset behind those, is read
as the moment itself: the offset is taken off again, the fraction is dropped, and a leap second stays one. Among the
texts of the form `YYYY-MM-DDTHH:MM:SSZ` only one is read as the moment, the one that the moment is written as.
-/

namespace Attest

open Ascii (byte)

namespace Timestamp

/-! ### Local time -/

/-- Whether a clock that is some minutes ahead of UTC shows a local time at a moment: the offset is added on
the line of seconds, and a leap second is shown as one. -/
def LocalTime (minutes : Int) (moment clock : Timestamp) : Prop :=
  clock.epochSeconds = moment.epochSeconds + 60 * minutes ∧ clock.leap = moment.leap

theorem localTime_shift {minutes : Int} (h : minutes.natAbs < 1440) (t : Timestamp) :
    LocalTime minutes t (t.shift minutes) := ⟨epochSeconds_shift h t, rfl⟩

theorem LocalTime.unique {minutes : Int} {moment clock other : Timestamp} (h : LocalTime minutes moment clock)
    (hother : LocalTime minutes moment other) : other = clock :=
  ext_epochSeconds (hother.1.trans h.1.symm) (hother.2.trans h.2.symm)

/-- Taking the offset off a local time gives the moment at which it is shown. -/
theorem LocalTime.shift_neg {minutes : Int} {moment clock : Timestamp} (h : LocalTime minutes moment clock)
    (hminutes : minutes.natAbs < 1440) : clock.shift (-minutes) = moment := by
  have hback : (clock.shift (-minutes)).epochSeconds = clock.epochSeconds + 60 * -minutes :=
    epochSeconds_shift (by omega) clock
  refine ext_epochSeconds ?_ h.2
  rw [hback, h.1]
  omega

/-- Whole minutes do not change where in its minute a time stands. -/
theorem LocalTime.regular {minutes : Int} {moment clock : Timestamp} (h : LocalTime minutes moment clock)
    (hmoment : moment.Regular) : clock.Regular := by
  obtain ⟨hseconds, hleap⟩ := h
  have hsecond := clock.second_lt
  have hsecond' := moment.second_lt
  rw [epochSeconds, epochSeconds] at hseconds
  have hsame : clock.second = moment.second := by omega
  rwa [Regular, hleap, hsame]

/-! ### Fractions and offsets in texts -/

/-- The digits of a fraction behind a point, or nothing. -/
def fractionText (digits : List Char) : List Char := if digits = [] then [] else '.' :: digits

/-- Hours and minutes, each in two digits. -/
def hoursAndMinutes (minutes : Nat) : List Char := padded 2 (minutes / 60) ++ ':' :: padded 2 (minutes % 60)

/-- The ways to write an offset of some minutes. -/
inductive OffsetText : Int → List Char → Prop
  | utc : OffsetText 0 ['Z']
  | ahead (minutes : Nat) : OffsetText minutes ('+' :: hoursAndMinutes minutes)
  | behind (minutes : Nat) : OffsetText (-minutes) ('-' :: hoursAndMinutes minutes)

/-- A local time with the digits of a fraction and an offset. -/
def written (clock : Timestamp) (digits ending : List Char) : String :=
  String.ofList (clock.clockChars ++ fractionText digits ++ ending)

theorem ascii_fractionText {digits : List Char} (h : ∀ c ∈ digits, c.isDigit = true) :
    ∀ c ∈ fractionText digits, c.toNat < 128 := by
  rw [fractionText]
  split
  · simp
  · rw [List.forall_mem_cons]
    exact ⟨by decide, fun c hc => Ascii.lt_of_isDigit (h c hc)⟩

theorem ascii_hoursAndMinutes (minutes : Nat) : ∀ c ∈ hoursAndMinutes minutes, c.toNat < 128 := by
  rw [hoursAndMinutes, List.forall_mem_append, List.forall_mem_cons]
  exact ⟨ascii_padded _ _, by decide, ascii_padded _ _⟩

theorem OffsetText.ascii {minutes : Int} {ending : List Char} (h : OffsetText minutes ending) :
    ∀ c ∈ ending, c.toNat < 128 := by
  cases h with
  | utc => exact List.forall_mem_singleton.mpr (by decide)
  | ahead minutes =>
      rw [List.forall_mem_cons]
      exact ⟨by decide, ascii_hoursAndMinutes minutes⟩
  | behind minutes =>
      rw [List.forall_mem_cons]
      exact ⟨by decide, ascii_hoursAndMinutes minutes⟩

/-- An offset starts with a letter or a sign. -/
theorem OffsetText.exists_head {minutes : Int} {ending : List Char} (h : OffsetText minutes ending) :
    ∃ c rest, ending = c :: rest ∧ Ascii.isDigit (byte c) = false ∧ (byte c == byte '.') = false := by
  cases h with
  | utc => exact ⟨_, _, rfl, by decide, by decide⟩
  | ahead minutes => exact ⟨_, _, rfl, by decide, by decide⟩
  | behind minutes => exact ⟨_, _, rfl, by decide, by decide⟩

theorem skipFraction_fractionText {digits : List Char} (h : ∀ c ∈ digits, c.isDigit = true) {minutes : Int}
    {ending : List Char} (hending : OffsetText minutes ending) :
    Rfc3339.skipFraction ((fractionText digits ++ ending).map byte) = .ok (ending.map byte) := by
  obtain ⟨c, rest, hrest, hc, hpoint⟩ := hending.exists_head
  cases digits with
  | nil =>
      rw [fractionText, if_pos rfl, List.nil_append, hrest, List.map_cons]
      simp only [Rfc3339.skipFraction, hpoint, Bool.false_eq_true, if_false]
  | cons d digits =>
      have hstop : Ascii.Undigited (ending.map byte) := by
        rw [hrest]
        exact Ascii.undigited_cons hc
      have hspan := Ascii.span_digits h hstop
      rw [List.span_eq_takeWhile_dropWhile, Prod.mk.injEq, List.map_cons, List.cons_append] at hspan
      have hd := Ascii.isDigit_byte (h d List.mem_cons_self)
      rw [fractionText, if_neg (List.cons_ne_nil d digits)]
      simp only [List.cons_append, List.map_cons, List.map_append, Rfc3339.skipFraction, beq_self_eq_true, if_true, hd]
      exact congrArg Except.ok hspan.2

/-- Signed hours and minutes are read as a number of minutes. -/
theorem offset_signed {sign : UInt8} (negative : Bool) (hletter : (sign == byte 'Z' || sign == byte 'z') = false)
    (hsign : ∀ rest, Rfc3339.offsetSign (sign :: rest) = .ok (negative, rest)) {minutes : Nat} (h : minutes < 1440) :
    Rfc3339.offset (sign :: (hoursAndMinutes minutes).map byte) =
      .ok (if negative then -(minutes : Int) else minutes, []) := by
  have hhours : minutes / 60 < 100 := by omega
  have hminutes : minutes % 60 < 100 := by omega
  have hlimit : ¬ 59 < minutes % 60 := by omega
  have htotal : 60 * ((minutes / 60 : Nat) : Int) + ((minutes % 60 : Nat) : Int) = minutes := by omega
  rw [hoursAndMinutes, padded_two hhours, padded_two hminutes, Rfc3339.offset]
  simp only [hletter, Bool.false_eq_true, if_false, List.cons_append, List.nil_append, List.map_cons, List.map_nil,
    hsign, pure_bind, ok_bind, Rfc3339.twoDigits_parts hhours, Rfc3339.twoDigits_parts hminutes, Rfc3339.expect_self,
    hlimit, htotal]
  rfl

theorem OffsetText.read {minutes : Int} {ending : List Char} (h : OffsetText minutes ending)
    (hminutes : minutes.natAbs < 1440) : Rfc3339.offset (ending.map byte) = .ok (minutes, []) := by
  cases h with
  | utc => rfl
  | ahead minutes => exact offset_signed false (by decide) (fun _ => rfl) (by omega)
  | behind minutes => exact offset_signed true (by decide) (fun _ => rfl) (by omega)

/-- A written local time is read as the moment at which it is shown. -/
theorem parseLenient_written {minutes : Int} {moment clock : Timestamp} (hclock : LocalTime minutes moment clock)
    (hregular : moment.Regular) (hminutes : minutes.natAbs < 1440) (hyear : clock.FourDigitYear) {digits ending : List Char}
    (hdigits : ∀ c ∈ digits, c.isDigit = true) (hending : OffsetText minutes ending) :
    parseLenient (written clock digits ending) = .ok moment := by
  have hascii : ∀ c ∈ clock.clockChars ++ fractionText digits ++ ending, c.toNat < 128 := by
    rw [List.forall_mem_append, List.forall_mem_append]
    exact ⟨⟨clock.ascii_clockChars, ascii_fractionText hdigits⟩, hending.ascii⟩
  have hread := read_clockChars hyear (skipFraction_fractionText hdigits hending) (hending.read hminutes) hminutes
  rw [told_eq_self.mpr (hclock.regular hregular), hclock.shift_neg hminutes] at hread
  rw [parseLenient, written, Bytes.ofString_ofList, Ascii.ofChars_ascii hascii, List.append_assoc, List.map_append,
    hread]
  rfl

/-! ### The text in UTC -/

/-- A digit as the digit 0, and any other character as it is. -/
def shape (c : Char) : Char := if c.isDigit then '0' else c

/-- Whether a text has the form `YYYY-MM-DDTHH:MM:SSZ`. -/
def HasUtcForm (s : String) : Prop := s.toList.map shape = "0000-00-00T00:00:00Z".toList

instance (s : String) : Decidable (HasUtcForm s) := inferInstanceAs (Decidable (_ = _))

theorem shape_eq_zero {c : Char} (h : shape c = '0') : c.isDigit = true := by
  rw [shape] at h
  split at h
  · assumption
  · rw [h]
    rfl

theorem eq_of_shape {c d : Char} (h : shape c = d) (hd : d ≠ '0') : c = d := by
  rw [shape] at h
  split at h
  · exact absurd h.symm hd
  · exact h

/-- Two characters of which both are digits write a number. -/
theorem exists_padded_two {a b : Char} (ha : shape a = '0') (hb : shape b = '0') : ∃ n < 100, [a, b] = padded 2 n := by
  obtain ⟨m, hm, rfl⟩ := Ascii.exists_digitChar (shape_eq_zero ha)
  obtain ⟨n, hn, rfl⟩ := Ascii.exists_digitChar (shape_eq_zero hb)
  have hfirst : (10 * m + n) / 10 = m := by omega
  have hlast : (10 * m + n) % 10 = n := by omega
  refine ⟨10 * m + n, by omega, ?_⟩
  rw [padded_two (by omega), hfirst, hlast]

/-- A text of the form is written with the numbers of a date and of a time of day, which need not exist. -/
theorem exists_clockText {s : String} (h : HasUtcForm s) :
    ∃ year month day hour minute second, FitDigits year month day hour minute second ∧
      s.toList = clockText (padded 4 year) month day hour minute second ++ ['Z'] := by
  have hshape : s.toList.map shape = ['0', '0', '0', '0', '-', '0', '0', '-', '0', '0', 'T', '0', '0', ':', '0', '0',
    ':', '0', '0', 'Z'] := h
  simp only [List.map_eq_cons_iff, List.map_eq_nil_iff] at hshape
  obtain ⟨y₁, _, hs, hy₁, y₂, _, rfl, hy₂, y₃, _, rfl, hy₃, y₄, _, rfl, hy₄, d₁, _, rfl, hd₁, hshape⟩ := hshape
  obtain ⟨m₁, _, rfl, hm₁, m₂, _, rfl, hm₂, d₂, _, rfl, hd₂, a₁, _, rfl, ha₁, a₂, _, rfl, ha₂, hshape⟩ := hshape
  obtain ⟨t, _, rfl, ht, h₁, _, rfl, hh₁, h₂, _, rfl, hh₂, c₁, _, rfl, hc₁, i₁, _, rfl, hi₁, hshape⟩ := hshape
  obtain ⟨i₂, _, rfl, hi₂, c₂, _, rfl, hc₂, s₁, _, rfl, hs₁, s₂, _, rfl, hs₂, z, _, rfl, hz, rfl⟩ := hshape
  obtain ⟨century, hcentury, hcenturies⟩ := exists_padded_two hy₁ hy₂
  obtain ⟨year, hyear, hyears⟩ := exists_padded_two hy₃ hy₄
  obtain ⟨month, hmonth, hmonths⟩ := exists_padded_two hm₁ hm₂
  obtain ⟨day, hday, hdays⟩ := exists_padded_two ha₁ ha₂
  obtain ⟨hour, hhour, hhours⟩ := exists_padded_two hh₁ hh₂
  obtain ⟨minute, hminute, hminutes⟩ := exists_padded_two hi₁ hi₂
  obtain ⟨second, hsecond, hseconds⟩ := exists_padded_two hs₁ hs₂
  have hfirst : (100 * century + year) / 100 = century := by omega
  have hlast : (100 * century + year) % 100 = year := by omega
  refine ⟨100 * century + year, month, day, hour, minute, second,
    ⟨by omega, hmonth, hday, hhour, hminute, hsecond⟩, ?_⟩
  rw [hs, eq_of_shape hd₁ (by decide), eq_of_shape hd₂ (by decide), eq_of_shape ht (by decide),
    eq_of_shape hc₁ (by decide), eq_of_shape hc₂ (by decide), eq_of_shape hz (by decide), clockText,
    padded_four (by omega), hfirst, hlast, ← hcenturies, ← hyears, ← hmonths, ← hdays, ← hhours, ← hminutes, ← hseconds]
  rfl

theorem shape_padded_two {n : Nat} (h : n < 100) : (padded 2 n).map shape = ['0', '0'] := by
  have hdigit : ∀ d < 10, shape (Nat.digitChar d) = '0' := by decide
  rw [padded_two h, List.map_cons, List.map_cons, hdigit _ (by omega), hdigit _ (by omega)]
  rfl

theorem hasUtcForm_text {t : Timestamp} (h : t.FourDigitYear) : HasUtcForm t.text := by
  obtain ⟨hyear, hmonth, hday, hhour, hminute, hsecond⟩ := h.fitDigits
  have hcentury : t.date.year.natAbs / 100 < 100 := Nat.div_lt_of_lt_mul hyear
  have hrest : t.date.year.natAbs % 100 < 100 := Nat.mod_lt _ (by decide)
  rw [HasUtcForm, text, String.toList_ofList, chars_eq, clockChars, yearText_eq_padded h, clockText, padded_four hyear]
  simp only [List.map_append, List.map_cons, List.map_nil, shape_padded_two hcentury, shape_padded_two hrest,
    shape_padded_two hmonth, shape_padded_two hday, shape_padded_two hhour, shape_padded_two hminute,
    shape_padded_two hsecond]
  rfl

/-- A text in the form of UTC that is read is the text of what it is read as. -/
theorem eq_text_of_parseLenient {s : String} {t : Timestamp} (hform : HasUtcForm s) (h : parseLenient s = .ok t) :
    s = t.text := by
  obtain ⟨year, month, day, hour, minute, second, hfit, hs⟩ := exists_clockText hform
  have hread := mapError_eq_ok.mp h
  rw [Bytes.ofString_eq_ofChars, hs, Bytes.ofChars_append,
    Ascii.ofChars_ascii (ascii_clockText (ascii_padded 4 year) _ _ _ _ _),
    Rfc3339.read_clockText hfit] at hread
  cases hdate : Date.ofParts? year month day with
  | none =>
      rw [hdate] at hread
      cases hread
  | some date =>
      rw [hdate] at hread
      obtain ⟨hyears, hmonths, hdays⟩ := Date.parts_of_ofParts? hdate
      -- Behind the numbers stands the letter alone, so the local time is the time in UTC.
      obtain ⟨ending, hending, hread⟩ := bind_eq_ok.mp hread
      cases hending
      obtain ⟨clock, hclock, hread⟩ := bind_eq_ok.mp hread
      obtain ⟨hdates, hhours, hminutes, hseconds, -⟩ := Rfc3339.parts_of_localTime hclock
      have hutc : clock.shift (-0) = t := Except.ok.inj hread
      rw [shift_zero] at hutc
      rw [← hutc]
      have hnumber : clock.date.year = year := by rw [hdates, hyears]
      have hfour : clock.FourDigitYear := by
        have hyear := hfit.year_lt
        rw [FourDigitYear, hnumber]
        omega
      rw [text, chars_eq, clockChars, yearText_eq_padded hfour, hnumber, hdates, hmonths, hdays, hhours, hminutes,
        hseconds, Int.natAbs_natCast, ← hs, String.ofList_toList]

theorem HasUtcForm.length_eq {s : String} (h : HasUtcForm s) : s.length = 20 := by
  have hlength := congrArg List.length h
  rwa [List.length_map, String.length_toList] at hlength

/-! ### Every spelling of a moment -/

/-- At every offset a moment has one local time. Every text of that, with whatever fraction, is read as the moment,
and of the texts in the form of UTC only its own is. -/
theorem spellings_of_moment (moment : Timestamp) (minutes : Int) (hyear : moment.FourDigitYear)
    (hregular : moment.Regular) (hminutes : minutes.natAbs < 1440) :
    (∃! clock, LocalTime minutes moment clock) ∧
      (∀ clock digits ending, LocalTime minutes moment clock → clock.FourDigitYear →
        (∀ c ∈ digits, c.isDigit = true) → OffsetText minutes ending →
          parseLenient (written clock digits ending) = .ok moment) ∧
      moment.text.length = 20 ∧ HasUtcForm moment.text ∧
      ∀ s, HasUtcForm s → (parseLenient s = .ok moment ↔ s = moment.text) := by
  have hform := hasUtcForm_text hyear
  refine ⟨⟨moment.shift minutes, localTime_shift hminutes moment, ?_⟩, ?_, hform.length_eq, hform, ?_⟩
  · intro other hother
    exact (localTime_shift hminutes moment).unique hother
  · intro clock digits ending hclock hclockYear hdigits hending
    exact parseLenient_written hclock hregular hminutes hclockYear hdigits hending
  · intro s hs
    constructor
    · intro hread
      exact eq_text_of_parseLenient hs hread
    · rintro rfl
      rw [parseLenient_text, reread_eq_ok]
      exact ⟨hyear, told_eq_self.mpr hregular⟩

open Timestamp.Sample in
/-- The leap second is shown in the next year, and with a fraction, at an offset of an hour and a half. -/
theorem spellings_of_leapSecond :
    LocalTime 90 leapSecond (leapSecond.shift 90) ∧
      written (leapSecond.shift 90) "75".toList "+01:30".toList = "2017-01-01T01:29:60.75+01:30" ∧
      parseLenient "2017-01-01T01:29:60.75+01:30" = .ok leapSecond ∧ leapSecond.text = "2016-12-31T23:59:60Z" := by
  have hclock : LocalTime 90 leapSecond (leapSecond.shift 90) := by
    rw [LocalTime]
    decide +kernel
  have hwritten : written (leapSecond.shift 90) "75".toList "+01:30".toList = "2017-01-01T01:29:60.75+01:30" := by
    decide +kernel
  have hending : OffsetText 90 "+01:30".toList := .ahead 90
  have hdigits : ∀ c ∈ "75".toList, c.isDigit = true := Ascii.forall_mem_of_all _ (by decide)
  have hspellings := spellings_of_moment leapSecond 90 (by decide) (by decide) (by decide)
  have hread := hspellings.2.1 _ _ _ hclock (by decide) hdigits hending
  rw [hwritten] at hread
  exact ⟨hclock, hwritten, hread, by decide +kernel⟩

end Timestamp

end Attest
