import Attest.Json.Print
import Attest.Json.Scan
import Attest.Proofs.Text.Ascii
import Mathlib.Data.List.Forall2

/-!
Strings in a text. A character stands for itself or is escaped, and many can be escaped in more than one way. Each of
the ways is read as the bytes of the character's encoding, and the quote that closes a string ends the reading, so that
a string is read from each of its texts. The text that is written for a string is one of them.
-/

namespace Attest.Json

open Ascii (byte)

/-! ### The texts of a string -/

/-- The code units of a character in UTF-16. -/
def codeUnits (c : Char) : List Nat :=
  if c.toNat < 0x10000 then [c.toNat]
  else [0xD800 + (c.toNat - 0x10000) / 0x400, 0xDC00 + (c.toNat - 0x10000) % 0x400]

/-- A hexadecimal digit of either case. -/
def HexDigit (n : Nat) (b : UInt8) : Prop :=
  n < 16 ∧ (b = byte (Nat.digitChar n) ∨ b = byte (Nat.digitChar n).toUpper)

/-- The four hexadecimal digits of a code unit. -/
inductive HexUnit : (unit : Nat) → Bytes → Prop
  | digits {a b c d : Nat} {h₁ h₂ h₃ h₄ : UInt8} (ha : HexDigit a h₁) (hb : HexDigit b h₂) (hc : HexDigit c h₃)
      (hd : HexDigit d h₄) : HexUnit (((a * 16 + b) * 16 + c) * 16 + d) [h₁, h₂, h₃, h₄]

/-- The letters that stand for a character after a backslash, with the character. -/
def shortEscapes : List (Char × Char) :=
  [('"', '"'), ('\\', '\\'), ('/', '/'), ('b', '\x08'), ('f', '\x0c'), ('n', '\n'), ('r', '\r'), ('t', '\t')]

/-- The texts of a character in a string. -/
inductive WritesChar : Char → Bytes → Prop
  | itself {c : Char} (hquote : c ≠ '"') (hbackslash : c ≠ '\\') (hcontrol : 0x20 ≤ c.toNat) :
      WritesChar c (String.utf8EncodeChar c)
  | short {letter c : Char} (h : (letter, c) ∈ shortEscapes) : WritesChar c [byte '\\', byte letter]
  | units {c : Char} {units : List Bytes} (h : List.Forall₂ HexUnit (codeUnits c) units) :
      WritesChar c (units.flatMap fun unit => byte '\\' :: byte 'u' :: unit)

/-- The texts of characters one after the other. -/
inductive WritesChars : List Char → Bytes → Prop
  | nil : WritesChars [] []
  | cons {c : Char} {cs : List Char} {front text : Bytes} (hc : WritesChar c front) (hcs : WritesChars cs text) :
      WritesChars (c :: cs) (front ++ text)

/-- The texts of a string, with its quotes. -/
inductive WritesString : String → Bytes → Prop
  | quoted {s : String} {content : Bytes} (h : WritesChars s.toList content) :
      WritesString s (byte '"' :: (content ++ [byte '"']))

/-! ### Reading -/

theorem prepend_prepend (front more : Bytes) (rest : Except Error (Bytes × Bytes)) :
    prepend front (prepend more rest) = prepend (front ++ more) rest := by
  cases rest with
  | error e => rfl
  | ok result => simp [prepend, Except.map]

theorem readString_quote (rest : Bytes) : readString (byte '"' :: rest) = .ok ([], rest) := by
  rw [readString.eq_def]
  rfl

/-- A byte that is neither the quote nor the backslash nor a control character stands for itself. -/
theorem readString_cons {b : UInt8} (hquote : b ≠ byte '"') (hbackslash : b ≠ byte '\\')
    (hcontrol : ¬ b < 0x20) (text : Bytes) :
    readString (b :: text) = prepend [b] (readString text) := by
  rw [readString.eq_def]
  simp only [beq_eq_false_iff_ne.mpr hquote, beq_eq_false_iff_ne.mpr hbackslash, Bool.false_eq_true,
    if_false, hcontrol]

theorem readString_beyond_ascii {front : Bytes} (h : ∀ b ∈ front, 128 ≤ b.toNat) (text : Bytes) :
    readString (front ++ text) = prepend front (readString text) := by
  induction front with
  | nil =>
      rw [List.nil_append]
      cases readString text <;> rfl
  | cons b front ih =>
      have hb := h b List.mem_cons_self
      have hne {d : UInt8} (hd : d.toNat < 128) : b ≠ d := fun heq => by
        rw [heq] at hb
        omega
      have hcontrol : ¬ b < 0x20 := by
        rw [UInt8.lt_iff_toNat_lt]
        have hlow : (0x20 : UInt8).toNat = 32 := rfl
        omega
      rw [List.cons_append, readString_cons (hne (by decide)) (hne (by decide)) hcontrol,
        ih fun d hd => h d (List.mem_cons_of_mem _ hd), prepend_prepend]
      rfl

/-- A backslash and a letter stand for the character that the letter names. -/
theorem readString_short {e : UInt8} (hu : e ≠ byte 'u') {content : UInt8}
    (h : shortEscape? e = some content) (text : Bytes) :
    readString (byte '\\' :: e :: text) = prepend [content] (readString text) := by
  rw [readString.eq_def]
  simp only [show (byte '\\' == byte '"') = false by decide, Bool.false_eq_true, if_false,
    beq_self_eq_true, if_true, beq_eq_false_iff_ne.mpr hu, h]

theorem hexValue?_digitChar : ∀ n < 16, Bytes.hexValue? (byte (Nat.digitChar n)).toNat = some n := by
  decide

/-- A code unit that is a character of its own, written by its number. -/
theorem readString_unit {h₁ h₂ h₃ h₄ : UInt8} {unit : Nat} (hunit : hexUnit? h₁ h₂ h₃ h₄ = some unit)
    (hleading : isLeadingSurrogate unit = false) (htrailing : isTrailingSurrogate unit = false) (text : Bytes) :
    readString (byte '\\' :: byte 'u' :: h₁ :: h₂ :: h₃ :: h₄ :: text) =
      prepend (String.utf8EncodeChar (Char.ofNat unit)) (readString text) := by
  rw [readString.eq_def]
  simp only [show (byte '\\' == byte '"') = false by decide, Bool.false_eq_true, if_false,
    beq_self_eq_true, if_true, hunit, htrailing, hleading]

/-- Two code units that are a character together. -/
theorem readString_pair {h₁ h₂ h₃ h₄ l₁ l₂ l₃ l₄ : UInt8} {leading trailing : Nat}
    (hunit : hexUnit? h₁ h₂ h₃ h₄ = some leading) (hunit' : hexUnit? l₁ l₂ l₃ l₄ = some trailing)
    (hleading : isLeadingSurrogate leading = true) (htrailing : isTrailingSurrogate trailing = true) (text : Bytes) :
    readString (byte '\\' :: byte 'u' :: h₁ :: h₂ :: h₃ :: h₄ ::
        byte '\\' :: byte 'u' :: l₁ :: l₂ :: l₃ :: l₄ :: text) =
      prepend (String.utf8EncodeChar (pairedChar leading trailing)) (readString text) := by
  have hfirst : isTrailingSurrogate leading = false := by
    simp only [isLeadingSurrogate, Bool.and_eq_true, decide_eq_true_eq] at hleading
    simp [isTrailingSurrogate]
    omega
  rw [readString.eq_def]
  simp only [show (byte '\\' == byte '"') = false by decide, Bool.false_eq_true, if_false,
    beq_self_eq_true, if_true, hunit, hfirst, hleading, bne_self_eq_false, hunit', htrailing]

/-- A character that stands for itself in a string is read as its encoding. -/
theorem readString_itself {c : Char} (hquote : c ≠ '"') (hbackslash : c ≠ '\\') (hcontrol : 0x20 ≤ c.toNat)
    (text : Bytes) :
    readString (String.utf8EncodeChar c ++ text) = prepend (String.utf8EncodeChar c) (readString text) := by
  by_cases hascii : c.toNat < 128
  · rw [Ascii.utf8EncodeChar_ascii hascii]
    refine readString_cons (fun heq => hquote (Ascii.byte_inj hascii (by decide) heq))
      (fun heq => hbackslash (Ascii.byte_inj hascii (by decide) heq)) ?_ text
    rw [UInt8.lt_iff_toNat_lt, Ascii.toNat_byte hascii]
    exact Nat.not_lt.mpr hcontrol
  · exact readString_beyond_ascii (fun b hb => Ascii.le_of_mem_utf8EncodeChar (Nat.not_lt.mp hascii) hb) text

theorem hexValue?_of_hexDigit {n : Nat} {b : UInt8} (h : HexDigit n b) : Bytes.hexValue? b.toNat = some n := by
  have hupper : ∀ n < 16, Bytes.hexValue? (byte (Nat.digitChar n).toUpper).toNat = some n := by decide
  obtain ⟨hn, rfl | rfl⟩ := h
  · exact hexValue?_digitChar n hn
  · exact hupper n hn

theorem exists_of_hexUnit {unit : Nat} {digits : Bytes} (h : HexUnit unit digits) :
    ∃ h₁ h₂ h₃ h₄, digits = [h₁, h₂, h₃, h₄] ∧ hexUnit? h₁ h₂ h₃ h₄ = some unit := by
  cases h with
  | digits ha hb hc hd =>
      refine ⟨_, _, _, _, rfl, ?_⟩
      simp only [hexUnit?, hexValue?_of_hexDigit ha, hexValue?_of_hexDigit hb, hexValue?_of_hexDigit hc,
        hexValue?_of_hexDigit hd, Option.bind_eq_bind, Option.bind_some, Option.pure_def]

/-- A character written by its code units, be it one or two. -/
theorem readString_units {c : Char} {units : List Bytes} (h : List.Forall₂ HexUnit (codeUnits c) units)
    (text : Bytes) :
    readString ((units.flatMap fun unit => byte '\\' :: byte 'u' :: unit) ++ text) =
      prepend (String.utf8EncodeChar c) (readString text) := by
  rw [codeUnits] at h
  split at h
  · rename_i hbasic
    obtain ⟨digits, _, hdigits, hrest, rfl⟩ := List.forall₂_cons_left_iff.mp h
    obtain rfl := List.forall₂_nil_left_iff.mp hrest
    obtain ⟨h₁, h₂, h₃, h₄, rfl, hunit⟩ := exists_of_hexUnit hdigits
    have hvalid : c.toNat < 0xD800 ∨ 0xDFFF < c.toNat := by
      rcases c.valid with hlow | hhigh
      · exact .inl hlow
      · exact .inr hhigh.1
    have hread := readString_unit hunit (by simp [isLeadingSurrogate]; omega) (by simp [isTrailingSurrogate]; omega)
      text
    rwa [Char.ofNat_toNat] at hread
  · rename_i hbeyond
    obtain ⟨digits, _, hdigits, hrest, rfl⟩ := List.forall₂_cons_left_iff.mp h
    obtain ⟨digits', _, hdigits', hend, rfl⟩ := List.forall₂_cons_left_iff.mp hrest
    obtain rfl := List.forall₂_nil_left_iff.mp hend
    obtain ⟨h₁, h₂, h₃, h₄, rfl, hunit⟩ := exists_of_hexUnit hdigits
    obtain ⟨l₁, l₂, l₃, l₄, rfl, hunit'⟩ := exists_of_hexUnit hdigits'
    have hsize : c.toNat < 0x110000 := by
      rcases c.valid with hlow | hhigh
      · exact Nat.lt_trans hlow (by decide)
      · exact hhigh.2
    have hread := readString_pair hunit hunit' (by simp [isLeadingSurrogate]; omega)
      (by simp [isTrailingSurrogate]; omega) text
    have hchar : pairedChar (0xD800 + (c.toNat - 0x10000) / 0x400) (0xDC00 + (c.toNat - 0x10000) % 0x400) = c := by
      have hnat : 0x10000 + (0xD800 + (c.toNat - 0x10000) / 0x400 - 0xD800) * 0x400 +
          (0xDC00 + (c.toNat - 0x10000) % 0x400 - 0xDC00) = c.toNat := by omega
      rw [pairedChar, hnat, Char.ofNat_toNat]
    rw [hchar] at hread
    exact hread

theorem readString_writesChar {c : Char} {front : Bytes} (h : WritesChar c front) (text : Bytes) :
    readString (front ++ text) = prepend (String.utf8EncodeChar c) (readString text) := by
  cases h with
  | itself hquote hbackslash hcontrol => exact readString_itself hquote hbackslash hcontrol text
  | short hletter =>
      rename_i letter
      have hall : ∀ entry ∈ shortEscapes, byte entry.1 ≠ byte 'u' ∧
          shortEscape? (byte entry.1) = some (byte entry.2) ∧ entry.2.toNat < 128 := by decide
      obtain ⟨hu, hshort, hascii⟩ := hall _ hletter
      rw [Ascii.utf8EncodeChar_ascii hascii]
      exact readString_short hu hshort text
  | units hunits => exact readString_units hunits text

theorem readString_writesChars {cs : List Char} {content : Bytes} (h : WritesChars cs content) (rest : Bytes) :
    readString (content ++ byte '"' :: rest) = .ok (Bytes.ofChars cs, rest) := by
  induction h with
  | nil => exact readString_quote rest
  | cons hc _ ih =>
      rw [List.append_assoc, readString_writesChar hc, ih]
      rfl

/-- A string is read from each of its texts. -/
theorem scanString_writesChars {s : String} {content : Bytes} (h : WritesChars s.toList content) (rest : Bytes) :
    scanString (content ++ byte '"' :: rest) = .ok (.ok s, rest) := by
  have htext : Bytes.text? (Bytes.ofChars s.toList) = some s := by
    rw [← Bytes.ofString_eq_ofChars, Bytes.text?_ofString]
  rw [scanString, readString_writesChars h]
  simp only [htext]

/-! ### Written strings -/

/-- What is written for a character in a string is one of its texts. -/
theorem writesChar_escapedChar (c : Char) : WritesChar c (Bytes.ofChars (escapedChar c)) := by
  have hshort {d letter : Char} (hd : c = d) (hletter : letter.toNat < 128) (h : (letter, d) ∈ shortEscapes) :
      WritesChar c (Bytes.ofChars ['\\', letter]) := by
    rw [Ascii.ofChars_ascii (by simp [hletter]), hd]
    exact .short h
  rw [escapedChar]
  split
  · exact hshort (d := '"') ‹_› (by decide) (by decide)
  split
  · exact hshort (d := '\\') ‹_› (by decide) (by decide)
  split
  · exact hshort (d := '\x08') (Char.toNat_inj.mp ‹_›) (by decide) (by decide)
  split
  · exact hshort (d := '\t') (Char.toNat_inj.mp ‹_›) (by decide) (by decide)
  split
  · exact hshort (d := '\n') (Char.toNat_inj.mp ‹_›) (by decide) (by decide)
  split
  · exact hshort (d := '\x0c') (Char.toNat_inj.mp ‹_›) (by decide) (by decide)
  split
  · exact hshort (d := '\r') (Char.toNat_inj.mp ‹_›) (by decide) (by decide)
  split
  · rename_i hcontrol
    have hascii : ∀ n < 16, (Nat.digitChar n).toNat < 128 := by decide
    have hdigit (n : Nat) (hn : n < 16) : HexDigit n (byte (Nat.digitChar n)) := ⟨hn, .inl rfl⟩
    have hunit := HexUnit.digits (hdigit 0 (by decide)) (hdigit 0 (by decide)) (hdigit (c.toNat / 16) (by omega))
      (hdigit (c.toNat % 16) (by omega))
    have hvalue : ((0 * 16 + 0) * 16 + c.toNat / 16) * 16 + c.toNat % 16 = c.toNat := by omega
    rw [hvalue] at hunit
    have hunits : List.Forall₂ HexUnit (codeUnits c) [[byte '0', byte '0', byte (Nat.digitChar (c.toNat / 16)),
        byte (Nat.digitChar (c.toNat % 16))]] := by
      rw [codeUnits, if_pos (by omega)]
      exact .cons hunit .nil
    rw [Ascii.ofChars_ascii (by
      simp only [List.forall_mem_cons]
      exact ⟨by decide, by decide, by decide, by decide, hascii _ (by omega), hascii _ (by omega), nofun⟩)]
    exact .units hunits
  · rename_i hquote hbackslash _ _ _ _ _ hcontrol
    rw [Bytes.ofChars_cons, Bytes.ofChars_nil, List.append_nil]
    exact .itself hquote hbackslash (Nat.not_lt.mp hcontrol)

theorem writesChars_escaped (cs : List Char) : WritesChars cs (Bytes.ofChars (cs.flatMap escapedChar)) := by
  induction cs with
  | nil => exact .nil
  | cons c cs ih =>
      rw [List.flatMap_cons, Bytes.ofChars_append]
      exact .cons (writesChar_escapedChar c) ih

theorem ofChars_stringText (s : String) (rest : Bytes) : Bytes.ofChars (stringText s) ++ rest =
    byte '"' :: (Bytes.ofChars (s.toList.flatMap escapedChar) ++ byte '"' :: rest) := by
  have hquote : Bytes.ofChars ['"'] = [byte '"'] := Ascii.ofChars_ascii (by simp)
  rw [stringText, List.cons_append, Bytes.ofChars_cons, Bytes.ofChars_append, hquote,
    Ascii.utf8EncodeChar_ascii (by decide)]
  simp

/-- What is written for a string is one of its texts. -/
theorem writesString_stringText (s : String) : WritesString s (Bytes.ofChars (stringText s)) := by
  rw [← List.append_nil (Bytes.ofChars (stringText s)), ofChars_stringText]
  exact .quoted (writesChars_escaped s.toList)

/-- A string is read back from what is written for it. -/
theorem scanString_text (s : String) (rest : Bytes) :
    scanString (Bytes.ofChars (s.toList.flatMap escapedChar) ++ byte '"' :: rest) = .ok (.ok s, rest) :=
  scanString_writesChars (writesChars_escaped s.toList) rest

end Attest.Json
