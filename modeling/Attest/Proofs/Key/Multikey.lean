import Attest.Key.Ed25519
import Attest.Proofs.Multibase.Base58

/-!
Ed25519 public keys in texts. The bytes that mark the kind of a key fix the first letters of its text and the
number of all letters, whatever the key. A text that starts with the code letter of base 58 is read as a key exactly
if it is the text of the key.
-/

namespace Attest

/-- A text that starts with the code letter of base 58 is read in that base or not at all. -/
theorem Multibase.base_of_decode {text : String} {base : Base} {bytes : Bytes}
    (hletter : text.toList.head? = some 'z') (h : decode text = .ok (base, bytes)) : base = .base58Btc := by
  rw [decode] at h
  split at h
  · cases h
  · rename_i code letters htext
    rw [htext, List.head?_cons, Option.some.injEq] at hletter
    rw [hletter, Base.ofCode?_eq_base58Btc.mpr rfl] at h
    simp only at h
    split at h
    · cases h
      rfl
    · cases h

namespace Ed25519PublicKey

/-- A marked key as one number lies in a range that the mark alone tells. -/
theorem exists_number (k : Ed25519PublicKey) :
    ∃ rest < 256 ^ 32, ofDigits 256 ((codec ++ k.bytes).map UInt8.toNat) = 0xed01 * 256 ^ 32 + rest := by
  have hlength : (k.bytes.map UInt8.toNat).length = 32 := by rw [List.length_map, k.length_eq]
  have hlt := ofDigits_lt (by decide) (lt_of_mem_map_toNat k.bytes)
  have hmark : ofDigits 256 (codec.map UInt8.toNat) = 0xed01 := rfl
  rw [hlength] at hlt
  refine ⟨ofDigits 256 (k.bytes.map UInt8.toNat), hlt, ?_⟩
  rw [List.map_append, ofDigits_append, hlength, hmark]

/-- The digits of a marked key in base 58 are three that the mark alone tells, and 44 others. -/
theorem exists_digits (k : Ed25519PublicKey) :
    ∃ last, last.length = 44 ∧ convertDigits 256 58 ((codec ++ k.bytes).map UInt8.toNat) = [5, 20, 43] ++ last := by
  obtain ⟨rest, hrest, hnumber⟩ := k.exists_number
  have hfront : (0xed01 * 256 ^ 32 + rest) / 58 ^ 44 = 18023 := by
    norm_num at hrest ⊢
    omega
  obtain ⟨last, hlength, hdigits⟩ := exists_last_digits (by decide : 1 < 58) 44
    (by rw [hfront]; decide : 0 < (0xed01 * 256 ^ 32 + rest) / 58 ^ 44)
  rw [hfront] at hdigits
  refine ⟨last, hlength, ?_⟩
  -- The first byte is not zero, so there are no zeros to keep.
  rw [convertDigits, hnumber, hdigits]
  rfl

theorem multibase_toList (k : Ed25519PublicKey) :
    ∃ last : List Char, last.length = 44 ∧ k.multibase.toList = "z6Mk".toList ++ last := by
  obtain ⟨last, hlength, hdigits⟩ := k.exists_digits
  refine ⟨last.map (Base.base58Alphabet.getD · '1'), by rw [List.length_map, hlength], ?_⟩
  rw [multibase, Multibase.encode, String.toList_ofList, Multibase.base58, hdigits]
  rfl

theorem ofMultibase_eq_ok {text : String} {k : Ed25519PublicKey} :
    ofMultibase text = .ok k ↔ ∃ base, Multibase.decode text = .ok (base, codec ++ k.bytes) := by
  rw [ofMultibase]
  constructor
  · intro h
    split at h
    · cases h
    · rename_i base bytes hread
      split at h
      · rename_i hmark
        rw [ofBytes?] at h
        by_cases hlength : (bytes.drop 2).length = 32
        · rw [dif_pos hlength] at h
          cases h
          exact ⟨base, by rw [hread, ← hmark, List.take_append_drop]⟩
        · rw [dif_neg hlength] at h
          cases h
      · cases h
  · rintro ⟨base, hread⟩
    have hmark : (codec ++ k.bytes).take 2 = codec := rfl
    have hkey : (codec ++ k.bytes).drop 2 = k.bytes := rfl
    simp only [hread, hmark, if_true, hkey, ofBytes?, dif_pos k.length_eq]

/-- The text of a key has 48 letters and starts with `z6Mk`, and it is the one text in base 58 that is read as
the key. -/
theorem text_of_key (k : Ed25519PublicKey) :
    k.multibase.length = 48 ∧ "z6Mk".toList <+: k.multibase.toList ∧
      ∀ text, text.toList.head? = some 'z' ∧ ofMultibase text = .ok k ↔ text = k.multibase := by
  obtain ⟨last, hlength, htext⟩ := k.multibase_toList
  refine ⟨?_, ⟨last, htext.symm⟩, fun text => ⟨?_, ?_⟩⟩
  · rw [← String.length_toList, htext, List.length_append, hlength]
    rfl
  · rintro ⟨hletter, hread⟩
    obtain ⟨base, hbytes⟩ := ofMultibase_eq_ok.mp hread
    obtain rfl := Multibase.base_of_decode hletter hbytes
    exact Multibase.decode_eq_base58_iff.mp hbytes
  · rintro rfl
    refine ⟨by rw [htext]; rfl, ?_⟩
    exact ofMultibase_eq_ok.mpr ⟨.base58Btc, Multibase.decode_encode _⟩

end Ed25519PublicKey

end Attest
