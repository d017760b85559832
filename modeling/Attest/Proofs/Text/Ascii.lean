import Attest.Bytes
import Attest.Text.Ascii
import Mathlib.Data.List.TakeDrop

/-!
Characters as the bytes that readers see. An ASCII character is one byte, every byte of another
character lies above all ASCII bytes, and a run of decimal digits is read as the number that it
writes.
-/

namespace Attest.Ascii

theorem utf8EncodeChar_ascii {c : Char} (h : c.toNat < 128) : String.utf8EncodeChar c = [byte c] := by
  have hle : c.val.toNat ≤ 0x7f := Nat.le_of_lt_succ h
  simp only [String.utf8EncodeChar, hle, if_true]
  rfl

/-- A property of the characters of a list, by evaluation. -/
theorem forall_mem_of_all (p : Char → Prop) [DecidablePred p] {cs : List Char}
    (h : cs.all (fun c => decide (p c)) = true) : ∀ c ∈ cs, p c := by
  intro c hc
  exact of_decide_eq_true (List.all_eq_true.mp h c hc)

theorem ofChars_ascii {cs : List Char} (h : ∀ c ∈ cs, c.toNat < 128) :
    Bytes.ofChars cs = cs.map byte := by
  induction cs with
  | nil => rfl
  | cons c cs ih =>
      rw [Bytes.ofChars_cons, utf8EncodeChar_ascii (h c List.mem_cons_self),
        ih fun d hd => h d (List.mem_cons_of_mem _ hd)]
      rfl

theorem ofChars_injective {cs ds : List Char} (h : Bytes.ofChars cs = Bytes.ofChars ds) : cs = ds := by
  rw [← Bytes.ofString_ofList, ← Bytes.ofString_ofList] at h
  exact String.ofList_injective (Bytes.ofString_injective h)

/-- The bytes of a character beyond ASCII are not those of ASCII characters. -/
theorem le_of_mem_utf8EncodeChar {c : Char} (h : 128 ≤ c.toNat) {b : UInt8}
    (hb : b ∈ String.utf8EncodeChar c) : 128 ≤ b.toNat := by
  have hsize : c.val.toNat < 0x110000 := by
    rcases c.valid with hv | hv <;> omega
  have hlow : ¬ c.val.toNat ≤ 0x7f := Nat.not_le.mpr h
  rw [String.utf8EncodeChar] at hb
  split at hb
  · contradiction
  split at hb
  · simp only [List.mem_cons, List.not_mem_nil, or_false] at hb
    rcases hb with rfl | rfl <;> rw [UInt8.toNat_ofNat'] <;> omega
  split at hb
  · simp only [List.mem_cons, List.not_mem_nil, or_false] at hb
    rcases hb with rfl | rfl | rfl <;> rw [UInt8.toNat_ofNat'] <;> omega
  · simp only [List.mem_cons, List.not_mem_nil, or_false] at hb
    rcases hb with rfl | rfl | rfl | rfl <;> rw [UInt8.toNat_ofNat'] <;> omega

theorem toNat_byte {c : Char} (h : c.toNat < 128) : (byte c).toNat = c.toNat := by
  show (UInt8.ofNat c.val.toNat).toNat = c.val.toNat
  have hlt : c.val.toNat < 128 := h
  rw [UInt8.toNat_ofNat', Nat.mod_eq_of_lt (by omega)]

theorem byte_inj {c d : Char} (hc : c.toNat < 128) (hd : d.toNat < 128) (h : byte c = byte d) :
    c = d := by
  have hnat := congrArg UInt8.toNat h
  rw [toNat_byte hc, toNat_byte hd] at hnat
  exact Char.toNat_inj.mp hnat

/-! ### Decimal digits -/

theorem toNat_of_isDigit {c : Char} (h : c.isDigit = true) : 48 ≤ c.toNat ∧ c.toNat ≤ 57 := by
  simp only [Char.isDigit, Bool.and_eq_true, decide_eq_true_eq, ge_iff_le,
    UInt32.le_iff_toNat_le] at h
  exact h

theorem lt_of_isDigit {c : Char} (h : c.isDigit = true) : c.toNat < 128 :=
  Nat.lt_of_le_of_lt (toNat_of_isDigit h).2 (by decide)

/-- A digit is the character of its value. -/
theorem digitChar_of_isDigit {c : Char} (h : c.isDigit = true) : Nat.digitChar (c.toNat - '0'.toNat) = c := by
  obtain ⟨hlow, hhigh⟩ := toNat_of_isDigit h
  have hvalue : ∀ n < 10, (Nat.digitChar n).toNat = 48 + n := by decide
  have hzero : '0'.toNat = 48 := rfl
  refine Char.toNat_inj.mp ?_
  rw [hvalue _ (by omega)]
  omega

theorem exists_digitChar {c : Char} (h : c.isDigit = true) : ∃ n < 10, c = Nat.digitChar n := by
  obtain ⟨-, hhigh⟩ := toNat_of_isDigit h
  have hzero : '0'.toNat = 48 := rfl
  exact ⟨c.toNat - '0'.toNat, by omega, (digitChar_of_isDigit h).symm⟩

theorem isDigit_iff_toNat {b : UInt8} : isDigit b = true ↔ 48 ≤ b.toNat ∧ b.toNat ≤ 57 := by
  simp only [isDigit, Bool.and_eq_true, decide_eq_true_eq, UInt8.le_iff_toNat_le]
  exact Iff.rfl

theorem isDigit_byte {c : Char} (h : c.isDigit = true) : isDigit (byte c) = true := by
  rw [isDigit_iff_toNat, toNat_byte (lt_of_isDigit h)]
  exact toNat_of_isDigit h

theorem digitValue_byte {c : Char} (h : c.isDigit = true) :
    digitValue (byte c) = c.toNat - '0'.toNat := by
  rw [digitValue, toNat_byte (lt_of_isDigit h)]
  rfl

/-- A run of digits stands for the number that it writes. -/
theorem decimalValue_digits {cs : List Char} (h : ∀ c ∈ cs, c.isDigit = true) :
    decimalValue (cs.map byte) = Nat.ofDigitChars 10 cs 0 := by
  rw [decimalValue, Nat.ofDigitChars, List.foldl_map]
  generalize 0 = start
  induction cs generalizing start with
  | nil => rfl
  | cons c cs ih =>
      rw [List.foldl_cons, List.foldl_cons, digitValue_byte (h c List.mem_cons_self)]
      exact ih (fun d hd => h d (List.mem_cons_of_mem _ hd)) _

/-- A text that does not go on with a digit. -/
def Undigited (text : Bytes) : Prop := ∀ b ∈ text.head?, isDigit b = false

theorem undigited_cons {b : UInt8} {text : Bytes} (h : isDigit b = false) :
    Undigited (b :: text) := fun c hc => by
  cases hc
  exact h

theorem span_digits {cs : List Char} (h : ∀ c ∈ cs, c.isDigit = true) {text : Bytes}
    (htext : Undigited text) : (cs.map byte ++ text).span isDigit = (cs.map byte, text) := by
  have hdigits : ∀ b ∈ cs.map byte, isDigit b = true := fun b hb => by
    obtain ⟨c, hc, rfl⟩ := List.mem_map.mp hb
    exact isDigit_byte (h c hc)
  have hstop : text.takeWhile isDigit = [] ∧ text.dropWhile isDigit = text := by
    cases text with
    | nil => exact ⟨rfl, rfl⟩
    | cons b text =>
        have hb := htext b rfl
        simp [hb]
  rw [List.span_eq_takeWhile_dropWhile, List.takeWhile_append_of_pos hdigits,
    List.dropWhile_append_of_pos hdigits, hstop.1, hstop.2, List.append_nil]

end Attest.Ascii
