import Attest.Key.Pair
import Attest.Proofs.Multibase.Positional

/-!
Proof values. The text in which a signature is written is read back as that signature, of whatever
length and with whatever bytes in front, and no other text is read as it: digits of one base are
digits of the other in one way only. What is read at all is the code letter of base 58 with letters
of its alphabet behind it.
-/

namespace Attest

namespace Base

theorem place_base58 : ∀ d < 58, base58Alphabet.idxOf? (base58Alphabet.getD d '1') = some d := by
  decide

theorem places?_base58 {ds : List Nat} (h : ∀ d ∈ ds, d < 58) :
    places? base58Alphabet (ds.map (base58Alphabet.getD · '1')) = some ds := by
  induction ds with
  | nil => rfl
  | cons d ds ih =>
      rw [List.forall_mem_cons] at h
      rw [places?, List.map_cons, List.mapM_cons, place_base58 d h.1]
      rw [places?] at ih
      rw [ih h.2]
      rfl

theorem places?_cons {alphabet text : List Char} {c : Char} {ds : List Nat} :
    places? alphabet (c :: text) = some ds ↔
      ∃ d rest, alphabet.idxOf? c = some d ∧ places? alphabet text = some rest ∧ ds = d :: rest := by
  rw [places?, List.mapM_cons, places?]
  constructor
  · intro h
    obtain ⟨d, hd, h⟩ := Option.bind_eq_some_iff.mp h
    obtain ⟨rest, hrest, h⟩ := Option.bind_eq_some_iff.mp h
    cases h
    exact ⟨d, rest, hd, hrest, rfl⟩
  · rintro ⟨d, rest, hd, hrest, rfl⟩
    exact Option.bind_eq_some_iff.mpr ⟨d, hd, Option.bind_eq_some_iff.mpr ⟨rest, hrest, rfl⟩⟩

/-- The places of letters are places of the alphabet, and the letters stand at them. -/
theorem letters_of_places? {alphabet text : List Char} {ds : List Nat} (fill : Char)
    (h : places? alphabet text = some ds) :
    (∀ d ∈ ds, d < alphabet.length) ∧ ds.map (alphabet.getD · fill) = text := by
  induction text generalizing ds with
  | nil =>
      cases h
      exact ⟨nofun, rfl⟩
  | cons c text ih =>
      obtain ⟨d, rest, hd, hrest, rfl⟩ := places?_cons.mp h
      obtain ⟨hlength, hletter, -⟩ := List.idxOf?_eq_some_iff.mp hd
      obtain ⟨hlt, hletters⟩ := ih hrest
      rw [List.forall_mem_cons, List.map_cons, hletters, List.getD_eq_getElem?_getD, List.getElem?_eq_getElem hlength,
        Option.getD_some, hletter]
      exact ⟨⟨hlength, hlt⟩, rfl⟩

/-- Letters have places exactly if the alphabet has them. -/
theorem exists_places?_iff {alphabet text : List Char} :
    (∃ ds, places? alphabet text = some ds) ↔ ∀ c ∈ text, c ∈ alphabet := by
  induction text with
  | nil => exact ⟨fun _ => nofun, fun _ => ⟨[], rfl⟩⟩
  | cons c text ih =>
      rw [List.forall_mem_cons, ← ih]
      constructor
      · rintro ⟨ds, hds⟩
        obtain ⟨d, rest, hd, hrest, -⟩ := places?_cons.mp hds
        obtain ⟨hlength, hletter, -⟩ := List.idxOf?_eq_some_iff.mp hd
        exact ⟨hletter ▸ List.getElem_mem hlength, rest, hrest⟩
      · rintro ⟨hc, rest, hrest⟩
        obtain ⟨d, hd⟩ := Option.ne_none_iff_exists'.mp fun hnone => List.idxOf?_eq_none_iff.mp hnone hc
        exact ⟨d :: rest, places?_cons.mpr ⟨d, rest, hd, hrest, rfl⟩⟩

theorem ofCode?_eq_base58Btc {c : Char} : ofCode? c = some .base58Btc ↔ c = 'z' := by
  constructor
  · intro h
    unfold ofCode? at h
    split at h <;> first | rfl | cases h
  · rintro rfl
    rfl

theorem decode?_base58Btc (text : List Char) : base58Btc.decode? text =
    (places? base58Alphabet text).map fun places => (convertDigits 58 256 places).map Nat.toUInt8 := rfl

end Base

theorem toUInt8_toNat (bytes : Bytes) : (bytes.map UInt8.toNat).map Nat.toUInt8 = bytes := by
  rw [List.map_map]
  exact (List.map_congr_left fun b _ => UInt8.ofNat_toNat).trans (List.map_id bytes)

theorem lt_of_mem_map_toNat (bytes : Bytes) : ∀ d ∈ bytes.map UInt8.toNat, d < 256 := by
  rw [List.forall_mem_map]
  intro b _
  exact b.toNat_lt

theorem toNat_toUInt8 {ds : List Nat} (h : ∀ d ∈ ds, d < 256) : (ds.map Nat.toUInt8).map UInt8.toNat = ds := by
  rw [List.map_map]
  refine (List.map_congr_left fun d hd => ?_).trans (List.map_id ds)
  exact UInt8.toNat_ofNat_of_lt' (h d hd)

namespace Multibase

theorem decode?_base58 (bytes : Bytes) : Base.base58Btc.decode? (base58 bytes) = some bytes := by
  have hdigits : ∀ d ∈ convertDigits 256 58 (bytes.map UInt8.toNat), d < 58 := lt_of_mem_convertDigits (by decide)
  rw [Base.decode?_base58Btc, base58, Base.places?_base58 hdigits, Option.map_some,
    convertDigits_convertDigits (by decide) (by decide) (lt_of_mem_map_toNat bytes), toUInt8_toNat]

/-- Letters that are read are those in which the bytes are written. -/
theorem eq_base58_of_decode? {letters : List Char} {bytes : Bytes} (h : Base.base58Btc.decode? letters = some bytes) :
    letters = base58 bytes := by
  rw [Base.decode?_base58Btc, Option.map_eq_some_iff] at h
  obtain ⟨places, hplaces, rfl⟩ := h
  obtain ⟨hsmall, hletters⟩ := Base.letters_of_places? '1' hplaces
  have hlt : ∀ d ∈ places, d < 58 := hsmall
  have hbytes : ∀ d ∈ convertDigits 58 256 places, d < 256 := lt_of_mem_convertDigits (by decide)
  rw [base58, toNat_toUInt8 hbytes, convertDigits_convertDigits (by decide) (by decide) hlt, hletters]

/-- A text in base 58 starts with its code letter. -/
theorem decode_eq_base58 {text : String} {bytes : Bytes} : decode text = .ok (.base58Btc, bytes) ↔
    ∃ letters, text.toList = 'z' :: letters ∧ Base.base58Btc.decode? letters = some bytes := by
  rw [decode]
  constructor
  · intro h
    split at h
    · cases h
    · rename_i code letters htext
      cases hcode : Base.ofCode? code with
      | none =>
          rw [hcode] at h
          cases h
      | some base =>
          rw [hcode] at h
          simp only at h
          split at h
          · rename_i read hread
            cases h
            exact ⟨letters, Base.ofCode?_eq_base58Btc.mp hcode ▸ htext, hread⟩
          · cases h
  · rintro ⟨letters, htext, hread⟩
    simp only [htext, Base.ofCode?_eq_base58Btc.mpr, hread]

/-- Bytes have one text in base 58. -/
theorem decode_eq_base58_iff {text : String} {bytes : Bytes} :
    decode text = .ok (.base58Btc, bytes) ↔ text = encode bytes := by
  rw [decode_eq_base58, encode]
  constructor
  · rintro ⟨letters, htext, hread⟩
    rw [← eq_base58_of_decode? hread, ← htext, String.ofList_toList]
  · rintro rfl
    exact ⟨base58 bytes, String.toList_ofList, decode?_base58 bytes⟩

theorem decode_encode (bytes : Bytes) : decode (encode bytes) = .ok (.base58Btc, bytes) :=
  decode_eq_base58_iff.mpr rfl

end Multibase

namespace ProofValue

theorem decode_eq_ok {text : String} {signature : Bytes} :
    decode text = .ok signature ↔ Multibase.decode text = .ok (.base58Btc, signature) := by
  rw [decode]
  cases Multibase.decode text with
  | error cause => simp
  | ok decoded =>
      obtain ⟨base, bytes⟩ := decoded
      by_cases hbase : base = .base58Btc <;> simp [hbase]

/-- A signature is read back from the text of a proof value. -/
theorem decode_encode (signature : Bytes) : decode (encode signature) = .ok signature :=
  decode_eq_ok.mpr (Multibase.decode_encode signature)

/-- A text is a proof value of those bytes that it is the text of, and it is one exactly if it is the code letter of
base 58 with letters of its alphabet behind it. -/
theorem decode_eq_ok_iff_encode (text : String) :
    (∀ bytes, decode text = .ok bytes ↔ text = encode bytes) ∧
      ((∃ bytes, decode text = .ok bytes) ↔
        ∃ letters, text.toList = 'z' :: letters ∧ ∀ c ∈ letters, c ∈ Base.base58Alphabet) := by
  constructor
  · intro bytes
    rw [decode_eq_ok, Multibase.decode_eq_base58_iff, encode]
  · simp only [decode_eq_ok, Multibase.decode_eq_base58, ← Base.exists_places?_iff, Base.decode?_base58Btc,
      Option.map_eq_some_iff]
    constructor
    · rintro ⟨_, letters, htext, places, hplaces, -⟩
      exact ⟨letters, htext, places, hplaces⟩
    · rintro ⟨letters, htext, places, hplaces⟩
      exact ⟨_, letters, htext, places, hplaces, rfl⟩

end ProofValue

end Attest
