import Attest.Proofs.Calendar.Days
import Attest.Proofs.Calendar.RoundTrip
import Mathlib.Data.List.Infix

/-!
The years that times can have. A count of days gives the year that its day lies in, so a time that is made
from a count of seconds has a year of four digits exactly between two instants. A text names a local time
with such a year, and its offset from UTC moves that by one day at most: a time that is read lies in the
years 0 to 9999 or on the day before or after them, and the latter never if the text ends in `Z`.
-/

namespace Attest

open Ascii (byte isDigit)

namespace Date

theorem year_of_ofDayNumber? {day : Int} {d : Date} (h : ofDayNumber? day = some d) :
    d.year = yearOfDay (day + epochDay) := (parts_of_ofParts? h).1

/-- Whether a date is the day before the year 0 or the day after the year 9999. -/
def Borders (d : Date) : Prop :=
  (d.year = 10000 ∧ d.month = 1 ∧ d.day = 1) ∨ (d.year = -1 ∧ d.month = 12 ∧ d.day = 31)

theorem next_of_year {d : Date} (hleast : 0 ≤ d.year) (hgreatest : d.year ≤ 9999) :
    (0 ≤ d.next.year ∧ d.next.year ≤ 9999) ∨ d.next.Borders := by
  unfold next
  split
  · exact .inl ⟨hleast, hgreatest⟩
  · split
    · exact .inl ⟨hleast, hgreatest⟩
    · rcases Int.lt_or_eq_of_le hgreatest with hbefore | hlast
      · exact .inl ⟨Int.le_add_one hleast, hbefore⟩
      · exact .inr (.inl ⟨congrArg (· + 1) hlast, rfl, rfl⟩)

theorem previous_of_year {d : Date} (hleast : 0 ≤ d.year) (hgreatest : d.year ≤ 9999) :
    (0 ≤ d.previous.year ∧ d.previous.year ≤ 9999) ∨ d.previous.Borders := by
  unfold previous
  split
  · exact .inl ⟨hleast, hgreatest⟩
  · split
    · exact .inl ⟨hleast, hgreatest⟩
    · rcases Int.lt_or_eq_of_le hleast with hafter | hfirst
      · exact .inl ⟨Int.le_sub_one_of_lt hafter, Int.le_trans (Int.sub_le_self _ (by decide)) hgreatest⟩
      · exact .inr (.inr ⟨congrArg (· - 1) hfirst.symm, rfl, rfl⟩)

end Date

namespace Rfc3339

/-! ### What a text that is read holds -/

theorem twoDigits_eq_ok {a b : UInt8} {n : Nat} (h : twoDigits a b = .ok n) : isDigit b = true ∧ n < 100 := by
  rw [twoDigits] at h
  split at h
  · rename_i hdigits
    obtain ⟨ha, hb⟩ := Bool.and_eq_true_iff.mp hdigits
    have hfirst := Ascii.isDigit_iff_toNat.mp ha
    have hsecond := Ascii.isDigit_iff_toNat.mp hb
    cases h
    refine ⟨hb, ?_⟩
    rw [Ascii.digitValue, Ascii.digitValue]
    omega
  · cases h

theorem isSuffix_of_skipFraction {text rest : Bytes} (h : skipFraction text = .ok rest) : rest <:+ text := by
  unfold skipFraction at h
  split at h
  · cases h
    exact List.suffix_rfl
  split at h
  · split at h
    · cases h
    split at h
    · cases h
      exact (List.dropWhile_suffix _).trans (List.suffix_cons _ _)
    · cases h
  · cases h
    exact List.suffix_rfl

theorem isSuffix_of_offsetSign {text rest : Bytes} {negative : Bool}
    (h : offsetSign text = .ok (negative, rest)) : rest <:+ text := by
  unfold offsetSign at h
  split at h
  · cases h
  · cases h
    exact List.suffix_append [0xE2, 0x88, 0x92] rest
  split at h
  · cases h
    exact List.suffix_cons _ _
  split at h
  · cases h
    exact List.suffix_cons _ _
  · cases h

/-- An offset is a single letter and then none, or it ends in a digit. -/
theorem offset_eq_ok {text : Bytes} {minutes : Int} (h : offset text = .ok (minutes, [])) :
    (minutes = 0 ∧ text ≠ []) ∨ ∃ b, isDigit b = true ∧ [b] <:+ text := by
  unfold offset at h
  split at h
  · split at h
    · left
      cases h
      exact ⟨rfl, List.cons_ne_nil _ _⟩
    · right
      obtain ⟨⟨negative, digits⟩, hsign, h⟩ := bind_eq_ok.mp h
      -- Behind the sign stand two digits, a colon and two digits, and the last of them ends the text.
      have hdigits := isSuffix_of_offsetSign hsign
      rcases digits with _ | ⟨h₁, _ | ⟨h₂, _ | ⟨colon, digits⟩⟩⟩
      · cases h
      · cases h
      · obtain ⟨hours, -, h⟩ := bind_eq_ok.mp h
        cases h
      · obtain ⟨hours, -, h⟩ := bind_eq_ok.mp h
        simp only [pure_bind] at h
        obtain ⟨-, -, h⟩ := bind_eq_ok.mp h
        rcases digits with _ | ⟨m₁, _ | ⟨m₂, left⟩⟩
        · cases h
        · cases h
        · obtain ⟨minute, hminute, h⟩ := bind_eq_ok.mp h
          split at h
          · cases h
          · cases h
            exact ⟨m₂, (twoDigits_eq_ok hminute).1,
              (List.suffix_append [h₁, h₂, colon, m₁] [m₂]).trans hdigits⟩
  · cases h

/-- A text that is read names a local time with a year of four digits, in which a leap second ends its minute, and ends
in its offset from UTC. -/
theorem read_eq_ok {text : Bytes} {t : Timestamp} (h : read text = .ok t) :
    ∃ (time : Timestamp) (minutes : Int) (ending : Bytes), time.FourDigitYear ∧ time.Regular ∧ ending <:+ text ∧
      offset ending = .ok (minutes, []) ∧ t = time.shift (-minutes) := by
  unfold read at h
  split at h
  · rename_i y₁ y₂ y₃ y₄ dash₁ m₁ m₂ dash₂ d₁ d₂ T h₁ h₂ colon₁ i₁ i₂ colon₂ s₁ s₂ rest
    -- Of the parts only the year is kept; for the others it is enough that their checks were passed.
    obtain ⟨century, hcentury, h⟩ := bind_eq_ok.mp h
    obtain ⟨year, hyear, h⟩ := bind_eq_ok.mp h
    obtain ⟨-, -, h⟩ := bind_eq_ok.mp h
    obtain ⟨month, -, h⟩ := bind_eq_ok.mp h
    obtain ⟨-, -, h⟩ := bind_eq_ok.mp h
    obtain ⟨day, -, h⟩ := bind_eq_ok.mp h
    cases hdate : Date.ofParts? (100 * century + year : Nat) month day with
    | none =>
        rw [hdate] at h
        cases h
    | some date =>
        simp only [hdate, pure_bind] at h
        split at h
        · obtain ⟨hour, -, h⟩ := bind_eq_ok.mp h
          obtain ⟨-, -, h⟩ := bind_eq_ok.mp h
          obtain ⟨minute, -, h⟩ := bind_eq_ok.mp h
          obtain ⟨-, -, h⟩ := bind_eq_ok.mp h
          obtain ⟨second, -, h⟩ := bind_eq_ok.mp h
          obtain ⟨ending, hending, h⟩ := bind_eq_ok.mp h
          obtain ⟨time, htime, h⟩ := bind_eq_ok.mp h
          obtain ⟨⟨minutes, left⟩, hoffset, h⟩ := bind_eq_ok.mp h
          split at h
          · rename_i hleft
            split at h
            · obtain ⟨htimeDate, -, -, -, hregular⟩ := parts_of_localTime htime
              have hyears : time.date.year = (100 * century + year : Nat) := by
                rw [htimeDate, (Date.parts_of_ofParts? hdate).1]
              have hfirst := (twoDigits_eq_ok hcentury).2
              have hlast := (twoDigits_eq_ok hyear).2
              rw [List.isEmpty_iff] at hleft
              refine ⟨time, minutes, ending, ⟨by omega, by omega⟩, hregular, ?_, hleft ▸ hoffset, ?_⟩
              · exact (isSuffix_of_skipFraction hending).trans (List.suffix_append
                  [y₁, y₂, y₃, y₄, dash₁, m₁, m₂, dash₂, d₁, d₂, T, h₁, h₂, colon₁, i₁, i₂, colon₂, s₁, s₂] rest)
              · cases h
                rfl
            · cases h
          · cases h
        · cases h
  · cases h

end Rfc3339

namespace Timestamp

/-! ### The years of times -/

/-- A time made from seconds has a year of four digits exactly between the start of the year 0 and the
end of the year 9999. -/
theorem fourDigitYear_of_ofEpoch? {t : Timestamp} {seconds : Int} {leap : Bool}
    (h : ofEpoch? seconds leap = some t) :
    t.FourDigitYear ↔ -62167219200 ≤ seconds ∧ seconds ≤ 253402300799 := by
  obtain ⟨-, -, h⟩ := Option.bind_eq_some_iff.mp h
  obtain ⟨date, hdate, h⟩ := Option.bind_eq_some_iff.mp h
  have htime : t.date = date := by
    dsimp only at h
    split at h
    · cases h
      rfl
    · cases h
  have hyear := Date.year_of_ofDayNumber? hdate
  have hleast := Date.le_yearOfDay_iff 0 (seconds / 86400 + Date.epochDay)
  have hgreatest := Date.le_yearOfDay_iff 10000 (seconds / 86400 + Date.epochDay)
  have hfirst : Date.daysBeforeYear 0 = 0 := by decide
  have hafter : Date.daysBeforeYear 10000 = 3652425 := by decide
  rw [Date.epochDay] at hyear hleast hgreatest
  rw [FourDigitYear, htime]
  omega

/-- A time that is read has a year of four digits or lies on a day beside those years. -/
theorem year_of_parseLenient {s : String} {t : Timestamp} (h : parseLenient s = .ok t) :
    t.FourDigitYear ∨ t.date.Borders := by
  obtain ⟨time, minutes, -, ⟨hleast, hgreatest⟩, -, -, -, rfl⟩ := Rfc3339.read_eq_ok (mapError_eq_ok.mp h)
  rw [FourDigitYear, shift]
  dsimp only
  split
  · exact Date.previous_of_year hleast hgreatest
  · split
    · exact Date.next_of_year hleast hgreatest
    · exact .inl ⟨hleast, hgreatest⟩

/-- A text that ends in `Z` has no offset, and so names a time with a year of four digits. -/
theorem year_of_parse {s : String} {t : Timestamp} (h : parse s = .ok t) : t.FourDigitYear := by
  rw [parse] at h
  split at h
  · rename_i hlast
    obtain ⟨before, hbefore⟩ := List.getLast?_eq_some_iff.mp hlast
    obtain ⟨time, minutes, ending, hyear, -, hending, hoffset, rfl⟩ := Rfc3339.read_eq_ok (mapError_eq_ok.mp h)
    rcases Rfc3339.offset_eq_ok hoffset with ⟨rfl, -⟩ | ⟨b, hb, hdigit⟩
    · rwa [shift_zero]
    · obtain ⟨start, hstart⟩ := hdigit.trans hending
      rw [Bytes.ofString_eq_ofChars, hbefore, Bytes.ofChars_append] at hstart
      have hz : [b] = [byte 'Z'] := List.append_inj_right' hstart rfl
      cases hz
      cases hb
  · cases h

/-! ### Leap seconds -/

/-- The leap second behind some seconds ends its minute exactly if they do. -/
theorem regular_of_ofEpoch? {t : Timestamp} {seconds : Int} {leap : Bool} (h : ofEpoch? seconds leap = some t) :
    t.Regular ↔ (leap = true → seconds % 60 = 59) := by
  obtain ⟨hseconds, hleap⟩ := epochSeconds_of_ofEpoch? h
  have hsecond := t.second_lt
  rw [epochSeconds] at hseconds
  have hlast : (t.second : Int) = seconds % 60 := by omega
  rw [Regular, hleap, ← hlast]
  exact imp_congr_right fun _ => by omega

/-- An offset of whole minutes leaves the second of a text as it is. -/
theorem regular_of_parseLenient {s : String} {t : Timestamp} (h : parseLenient s = .ok t) : t.Regular := by
  obtain ⟨time, minutes, -, -, hregular, -, -, rfl⟩ := Rfc3339.read_eq_ok (mapError_eq_ok.mp h)
  exact hregular

theorem regular_of_parse {s : String} {t : Timestamp} (h : parse s = .ok t) : t.Regular := by
  rw [parse] at h
  split at h
  · exact regular_of_parseLenient h
  · cases h

end Timestamp

end Attest
