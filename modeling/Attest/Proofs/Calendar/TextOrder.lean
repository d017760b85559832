import Attest.Proofs.Calendar.Days
import Attest.Proofs.Calendar.RoundTrip

/-!
The order of times in their texts. A number in a fixed count of digits comes before a greater one byte by byte, and so
does a time whose year has four digits: its text compares as its parts do from the year down. Texts are ordered as the
times that they tell, which are the times themselves but for a leap second within a minute. That one has the text of the
second behind it, and has passed at that second. Times that are made from seconds come in the order of the seconds.
-/

namespace Attest

open Ascii (byte)

/-- Texts in blocks of the same length are compared block by block. -/
theorem append_lt_append_iff {a b c d : Bytes} (h : a.length = b.length) :
    a ++ c < b ++ d ↔ a < b ∨ a = b ∧ c < d := by
  induction a generalizing b with
  | nil =>
      obtain rfl := List.eq_nil_of_length_eq_zero h.symm
      simp
  | cons x a ih =>
      cases b with
      | nil => cases h
      | cons y b =>
          rw [List.cons_append, List.cons_append, List.cons_lt_cons_iff, List.cons_lt_cons_iff, ih (Nat.succ.inj h),
            List.cons.injEq]
          tauto

namespace Timestamp

/-- The bytes of a number in two digits. -/
def pairBytes (n : Nat) : Bytes := (padded 2 n).map byte

/-- The bytes of a year in four digits. -/
def yearBytes (n : Nat) : Bytes := (padded 4 n).map byte

theorem digit_lt_digit : ∀ m < 10, ∀ n < 10,
    (byte (Nat.digitChar m) < byte (Nat.digitChar n) ↔ m < n) ∧
      (byte (Nat.digitChar m) = byte (Nat.digitChar n) ↔ m = n) := by
  decide

theorem pairBytes_eq {n : Nat} (h : n < 100) :
    pairBytes n = [byte (Nat.digitChar (n / 10)), byte (Nat.digitChar (n % 10))] := by
  rw [pairBytes, padded_two h]
  rfl

theorem yearBytes_eq {n : Nat} (h : n < 10000) : yearBytes n = pairBytes (n / 100) ++ pairBytes (n % 100) := by
  rw [yearBytes, padded_four h, List.map_append]
  rfl

theorem pairBytes_inj {m n : Nat} (hm : m < 100) (hn : n < 100) : pairBytes m = pairBytes n ↔ m = n := by
  obtain ⟨-, htens⟩ := digit_lt_digit (m / 10) (by omega) (n / 10) (by omega)
  obtain ⟨-, hones⟩ := digit_lt_digit (m % 10) (by omega) (n % 10) (by omega)
  rw [pairBytes_eq hm, pairBytes_eq hn, List.cons.injEq, List.cons.injEq, htens, hones]
  simp only [and_true]
  omega

theorem pairBytes_lt {m n : Nat} (hm : m < 100) (hn : n < 100) : pairBytes m < pairBytes n ↔ m < n := by
  obtain ⟨htens, htens'⟩ := digit_lt_digit (m / 10) (by omega) (n / 10) (by omega)
  obtain ⟨hones, hones'⟩ := digit_lt_digit (m % 10) (by omega) (n % 10) (by omega)
  rw [pairBytes_eq hm, pairBytes_eq hn, List.cons_lt_cons_iff, List.cons_lt_cons_iff, htens, htens', hones]
  simp only [List.not_lt_nil, and_false, or_false]
  omega

theorem length_pairBytes {m n : Nat} (hm : m < 100) (hn : n < 100) : (pairBytes m).length = (pairBytes n).length := by
  rw [pairBytes_eq hm, pairBytes_eq hn]
  rfl

/-- A pair of digits and what stands behind it, the latter after the same separator in both texts. -/
theorem pairBytes_cons_lt {m n : Nat} (hm : m < 100) (hn : n < 100) (separator : UInt8) (c d : Bytes) :
    pairBytes m ++ separator :: c < pairBytes n ++ separator :: d ↔ m < n ∨ m = n ∧ c < d := by
  rw [append_lt_append_iff (length_pairBytes hm hn), pairBytes_lt hm hn, pairBytes_inj hm hn, List.cons_lt_cons_iff]
  simp

theorem yearBytes_cons_lt {m n : Nat} (hm : m < 10000) (hn : n < 10000) (separator : UInt8) (c d : Bytes) :
    yearBytes m ++ separator :: c < yearBytes n ++ separator :: d ↔ m < n ∨ m = n ∧ c < d := by
  have hcentury : m / 100 < 100 := Nat.div_lt_of_lt_mul hm
  have hcentury' : n / 100 < 100 := Nat.div_lt_of_lt_mul hn
  have hrest : m % 100 < 100 := Nat.mod_lt _ (by decide)
  have hrest' : n % 100 < 100 := Nat.mod_lt _ (by decide)
  have hlt : m < n ↔ m / 100 < n / 100 ∨ m / 100 = n / 100 ∧ m % 100 < n % 100 := by omega
  have heq : m = n ↔ m / 100 = n / 100 ∧ m % 100 = n % 100 := by omega
  rw [yearBytes_eq hm, yearBytes_eq hn, List.append_assoc, List.append_assoc,
    append_lt_append_iff (length_pairBytes hcentury hcentury'), pairBytes_lt hcentury hcentury',
    pairBytes_inj hcentury hcentury', pairBytes_cons_lt hrest hrest', hlt, heq]
  tauto

/-- The bytes of the text of a time, number by number. -/
theorem ofString_text_eq {t : Timestamp} (h : t.FourDigitYear) : Bytes.ofString t.text =
    yearBytes t.date.year.natAbs ++ byte '-' :: (pairBytes t.date.month ++ byte '-' :: (pairBytes t.date.day ++
      byte 'T' :: (pairBytes t.hour ++ byte ':' :: (pairBytes t.minute ++ byte ':' ::
        (pairBytes t.shownSecond ++ byte 'Z' :: []))))) := by
  rw [ofString_text, chars_eq, clockChars, yearText_eq_padded h, clockText]
  simp only [List.map_append, List.map_cons, List.map_nil, List.append_assoc, List.cons_append]
  rfl

/-- Times that texts can tell are ordered as the bytes of their texts. -/
theorem hasPassed_iff_text {t now : Timestamp} (ht : t.FourDigitYear) (hnow : now.FourDigitYear)
    (hregular : t.Regular) (hregular' : now.Regular) :
    t.hasPassed now = true ↔ Bytes.ofString t.text < Bytes.ofString now.text := by
  obtain ⟨hyear, hmonth, hday, hhour, hminute, hsecond⟩ := ht.fitDigits
  obtain ⟨hyear', hmonth', hday', hhour', hminute', hsecond'⟩ := hnow.fitDigits
  rw [hasPassed, decide_eq_true_iff, parts, parts, ofString_text_eq ht, ofString_text_eq hnow,
    yearBytes_cons_lt hyear hyear', pairBytes_cons_lt hmonth hmonth', pairBytes_cons_lt hday hday',
    pairBytes_cons_lt hhour hhour', pairBytes_cons_lt hminute hminute', pairBytes_cons_lt hsecond hsecond']
  have hlast := shownSecond_lt_iff hregular hregular'
  obtain ⟨hleast, -⟩ := ht
  obtain ⟨hleast', -⟩ := hnow
  simp only [List.cons_lt_cons_iff, List.not_lt_nil, and_false, or_false]
  omega

theorem text_injective {t u : Timestamp} (ht : t.FourDigitYear) (hu : u.FourDigitYear) (h : t.text = u.text) :
    t.told = u.told := by
  have hread := t.parseLenient_text
  rw [h, u.parseLenient_text, reread, reread, if_pos ht, if_pos hu] at hread
  exact (Except.ok.inj hread).symm

/-! ### Leap seconds within a minute -/

/-- The time that a text tells has passed when the time itself has, but for the one moment that a leap second within a
minute shares its text with. -/
theorem hasPassed_iff_told (t now : Timestamp) :
    t.hasPassed now = true ↔ t.told.hasPassed now.told = true ∨ ¬ t.Regular ∧ now = t.told := by
  by_cases ht : t.Regular
  · rw [told_eq_self.mpr ht, or_iff_left fun h => h.1 ht]
    by_cases hnow : now.Regular
    · rw [told_eq_self.mpr hnow]
    · -- At the second of a leap second within a minute there is nothing behind it that a text can tell.
      obtain ⟨hleap, hplain, hsecond⟩ := told_of_not_regular hnow
      have hsame : t.epochSeconds = now.epochSeconds → t.leap = false := fun hseconds =>
        eq_false_of_ne_true fun htleap => hnow (ext_epochSeconds hseconds (htleap.trans hleap.symm) ▸ ht)
      rw [hasPassed_iff_epochSeconds, hasPassed_iff_epochSeconds, hleap, hplain, hsecond]
      cases htleap : t.leap with
      | false =>
          simp only [Bool.toNat_false, Bool.toNat_true]
          omega
      | true =>
          have hdiffers : t.epochSeconds ≠ now.epochSeconds := fun h => absurd (htleap.symm.trans (hsame h)) nofun
          simp only [Bool.toNat_false, Bool.toNat_true]
          omega
  · obtain ⟨hleap, hplain, hsecond⟩ := told_of_not_regular ht
    have hnext : now = t.told ↔ now.epochSeconds = t.epochSeconds + 1 ∧ now.leap = false := by
      rw [← hplain, ← hsecond]
      exact ⟨fun h => h ▸ ⟨rfl, rfl⟩, fun h => ext_epochSeconds h.1 h.2⟩
    rw [and_iff_right ht, hnext]
    by_cases hnow : now.Regular
    · rw [told_eq_self.mpr hnow, hasPassed_iff_epochSeconds, hasPassed_iff_epochSeconds, hleap, hplain, hsecond]
      cases now.leap with
      | false =>
          simp only [Bool.toNat_false, Bool.toNat_true, and_true]
          omega
      | true =>
          simp only [Bool.toNat_false, Bool.toNat_true, Bool.true_eq_false, and_false, or_false]
          omega
    · obtain ⟨hleap', hplain', hsecond'⟩ := told_of_not_regular hnow
      rw [hasPassed_iff_epochSeconds, hasPassed_iff_epochSeconds, hleap, hplain, hsecond, hleap', hplain', hsecond']
      simp

/-- No text tells an earlier time than the one that it is the text of. -/
theorem parts_lt_of_told {t now : Timestamp} (h : t.told.parts < now.parts) : t.parts < now.parts := by
  by_cases hregular : t.Regular
  · rwa [told_eq_self.mpr hregular] at h
  · obtain ⟨-, hplain, hsecond⟩ := told_of_not_regular hregular
    have htold : t.told.hasPassed now = true := decide_eq_true h
    have hpassed : t.hasPassed now = true := by
      rw [hasPassed_iff_epochSeconds, hplain, hsecond] at htold
      rw [hasPassed_iff_epochSeconds]
      omega
    exact of_decide_eq_true hpassed

/-! ### Times made from seconds -/

/-- A time that is made from seconds lies at these seconds, and is no leap second. -/
theorem epochSeconds_of_ofEpoch {seconds : Int} {t : Timestamp} (h : ofEpoch seconds = .ok t) :
    t.epochSeconds = seconds ∧ t.leap = false := by
  rw [ofEpoch] at h
  split at h
  · rename_i hmade
    cases h
    exact epochSeconds_of_ofEpoch? hmade
  · cases h

theorem hasPassed_iff_lt {seconds seconds' : Int} {t now : Timestamp} (ht : ofEpoch seconds = .ok t)
    (hnow : ofEpoch seconds' = .ok now) : t.hasPassed now = true ↔ seconds < seconds' := by
  obtain ⟨hepoch, hleap⟩ := epochSeconds_of_ofEpoch ht
  obtain ⟨hepoch', hleap'⟩ := epochSeconds_of_ofEpoch hnow
  rw [hasPassed_iff_epochSeconds, hepoch, hepoch', hleap, hleap']
  exact or_iff_left fun h => Nat.lt_irrefl _ h.2

end Timestamp

end Attest
