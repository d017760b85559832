import Attest.Proofs.Calendar.TextOrder
import Attest.Proofs.Calendar.Years
import Attest.Proofs.Document.SignVerify

/-!
Times in documents. A time is written as its text into the members `created` and `expires` of a proof and as
the dates of a credential, and it is read there again if its year is one of 0 to 9999 and it is no leap second within a
minute. That is not so for every time that can be made. Seconds reach years that are written with a sign, and an offset
from UTC can move a text across the end of the year 9999 or the start of the year 0. The text of such a time is refused
by every reader, so a proof that was created at it is not verified, and a credential that was issued at it is not read.
A leap second can be made to follow any second, and within a minute it is read as the second behind it.
-/

namespace Attest

open Json (Draft Object)

/-- What a time is made from: seconds, with or without a leap second, a text, or a text at a place of a
document. -/
inductive TimeSource
  | epoch (seconds : Int)
  | utc (seconds : Int) (leap : Bool)
  | canonical (text : String)
  | lenient (text : String)
  | member (draft : Draft)

namespace TimeSource

def Makes : TimeSource → Timestamp → Prop
  | epoch seconds, t => Timestamp.ofEpoch seconds = .ok t
  | utc seconds leap, t => Timestamp.ofEpoch? seconds leap = some t
  | canonical text, t => Timestamp.parse text = .ok t
  | lenient text, t => Timestamp.parseLenient text = .ok t
  | member draft, t => draft.time = .ok t

/-- When a time that is made from the source has a year of four digits. -/
def Years : TimeSource → Timestamp → Prop
  | epoch seconds, t | utc seconds _, t => t.FourDigitYear ↔ -62167219200 ≤ seconds ∧ seconds ≤ 253402300799
  | canonical _, t => t.FourDigitYear
  | lenient _, t | member _, t => t.FourDigitYear ∨ t.date.Borders

/-- When a time that is made from the source is not a leap second within a minute. -/
def Leaps : TimeSource → Timestamp → Prop
  | utc seconds leap, t => t.Regular ↔ (leap = true → seconds % 60 = 59)
  | _, t => t.Regular

theorem years_of_makes {source : TimeSource} {t : Timestamp} (h : source.Makes t) : source.Years t := by
  cases source with
  | epoch seconds =>
      rw [Makes, Timestamp.ofEpoch] at h
      split at h
      · rename_i hmade
        cases h
        exact Timestamp.fourDigitYear_of_ofEpoch? hmade
      · cases h
  | utc seconds leap => exact Timestamp.fourDigitYear_of_ofEpoch? h
  | canonical text => exact Timestamp.year_of_parse h
  | lenient text => exact Timestamp.year_of_parseLenient h
  | member draft =>
      obtain ⟨text, -, hparse⟩ := bind_eq_ok.mp h
      exact Timestamp.year_of_parseLenient (mapError_eq_ok.mp hparse)

theorem leaps_of_makes {source : TimeSource} {t : Timestamp} (h : source.Makes t) : source.Leaps t := by
  cases source with
  | epoch seconds =>
      intro hleap
      rw [(Timestamp.epochSeconds_of_ofEpoch h).2] at hleap
      cases hleap
  | utc seconds leap => exact Timestamp.regular_of_ofEpoch? h
  | canonical text => exact Timestamp.regular_of_parse h
  | lenient text => exact Timestamp.regular_of_parseLenient h
  | member draft =>
      obtain ⟨text, -, hparse⟩ := bind_eq_ok.mp h
      exact Timestamp.regular_of_parseLenient (mapError_eq_ok.mp hparse)

end TimeSource

/-- What is read in the places that a time is written into. -/
structure Timestamp.Embedded (t : Timestamp) : Prop where
  canonical : Timestamp.parse t.text = t.reread
  created (o : ProofOptions) (suite : Cryptosuite) :
    ProofCheck.time? (proofConfiguration o suite t) "created" =
      (some <$> t.reread).mapError fun cause => .malformedProof (.time "created" cause)
  expires (o : ProofOptions) (suite : Cryptosuite) (created : Timestamp) :
    ProofCheck.time? (proofConfiguration { o with expires := some t } suite created) "expires" =
      (some <$> t.reread).mapError fun cause => .malformedProof (.time "expires" cause)
  date : (timeJson t).draft.time = t.reread.mapError fun cause => .refused cause.message

theorem ProofCheck.time?_text {proof : Object} {name : String} {t : Timestamp} (h : Says proof name t.text) :
    ProofCheck.time? proof name =
      (some <$> t.reread).mapError fun cause => .malformedProof (.time name cause) := by
  rw [ProofCheck.time?, ProofCheck.text?_eq_some.mpr h, ok_bind]
  simp only [t.parseLenient_text]
  cases t.reread <;> rfl

theorem Timestamp.embedded (t : Timestamp) : t.Embedded where
  canonical := t.parse_text
  created o suite := ProofCheck.time?_text (get?_proofConfiguration o suite t "created")
  expires o suite created := ProofCheck.time?_text (get?_proofConfiguration _ suite created "expires")
  date := by
    show (parseLenient t.text).mapError _ = _
    rw [t.parseLenient_text]

/-- A text tells the time that it was written for exactly if the year is one of 0 to 9999 and the time is no leap second
within a minute. -/
theorem Timestamp.reread_eq_self {t : Timestamp} : t.reread = .ok t ↔ t.FourDigitYear ∧ t.Regular := by
  rw [reread_eq_ok, told_eq_self]

/-- A time is read in every place where it is written as what its text tells. That is the time exactly if its year is one
of 0 to 9999 and it is no leap second within a minute. -/
theorem TimeSource.embedded_of_makes (source : TimeSource) (t : Timestamp) (h : source.Makes t) :
    t.Embedded ∧ (t.reread = .ok t ↔ t.FourDigitYear ∧ t.Regular) ∧ source.Years t ∧ source.Leaps t :=
  ⟨t.embedded, Timestamp.reread_eq_self, years_of_makes h, leaps_of_makes h⟩

open Sample in
/-- An offset that moves a time across the end of a year, and a fraction that is dropped. -/
theorem TimeSource.embedded_of_makes_shifted :
    (lenient "2023-12-31T23:00:00.25-01:00").Makes newYear ∧ newYear.text = "2024-01-01T00:00:00Z" ∧
      Timestamp.parse newYear.text = .ok newYear := by
  have hmade : (lenient "2023-12-31T23:00:00.25-01:00").Makes newYear := by
    rw [Makes]
    decide +kernel
  obtain ⟨hembedded, hself, -, -⟩ := embedded_of_makes _ newYear hmade
  have hread := hembedded.canonical
  rw [hself.mpr ⟨by decide, by decide⟩] at hread
  exact ⟨hmade, by decide +kernel, hread⟩

/-- Seconds and a text make the start of the year 10000, and its own text is refused. -/
theorem Timestamp.unread_year_ten_thousand :
    (ofEpoch 253402300800).map text = .ok "+10000-01-01T00:00:00Z" ∧
      (parseLenient "9999-12-31T23:00:00-01:00").map text = .ok "+10000-01-01T00:00:00Z" ∧
      parse "+10000-01-01T00:00:00Z" = .error (.malformed "+10000-01-01T00:00:00Z" .invalid) := by
  decide +kernel

end Attest
