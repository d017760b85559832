import Attest.Key.P256
import Attest.Proofs.Curve.Encoding

/-!
Public keys of the curve P-256. Every key there is, whether it was read from bytes or belongs to a secret, is the
compressed form of a point of the curve. So it is read back as itself, all encodings of a point give the same key and
different points different ones, and a signature is never refused because of the key.
-/

namespace Attest

open Weierstrass (Affine Point generator)

/-- The key of a secret is the multiple of the base point by the secret scalar, which is never the neutral point. -/
theorem P256Secret.exists_affine (k : P256Secret) :
    ∃ a hcurve, k.publicKey = .ofAffine a ∧ k.scalar • generator = a.point hcurve := by
  obtain ⟨a, hcurve, haffine, hpoint⟩ := Weierstrass.exists_affine_multiply_base k.scalar_pos k.scalar_lt
  exact ⟨a, hcurve, by rw [publicKey, haffine, Option.getD_some], hpoint⟩

namespace P256PublicKey

/-- The keys there are: those that are read from bytes, and those of secrets. -/
inductive Made : P256PublicKey → Prop
  | read {bytes : Bytes} {k : P256PublicKey} (h : ofBytes bytes = .ok k) : Made k
  | ofSecret (secret : P256Secret) : Made secret.publicKey

theorem ofBytes_eq_ok {bytes : Bytes} {k : P256PublicKey} :
    ofBytes bytes = .ok k ↔ ∃ a, a.onCurve = true ∧ a.Encodes bytes ∧ k = ofAffine a := by
  rw [ofBytes]
  cases hread : Affine.ofBytes? bytes with
  | none =>
      constructor
      · intro h
        cases h
      · rintro ⟨a, hcurve, hencodes, -⟩
        have hsome := Affine.ofBytes?_eq_some_iff.mpr ⟨hcurve, hencodes⟩
        rw [hread] at hsome
        cases hsome
  | some found =>
      obtain ⟨hcurve, hencodes⟩ := Affine.ofBytes?_eq_some_iff.mp hread
      constructor
      · intro h
        exact ⟨found, hcurve, hencodes, (Except.ok.inj h).symm⟩
      · rintro ⟨a, ha, haencodes, rfl⟩
        have hsome := Affine.ofBytes?_eq_some_iff.mpr ⟨ha, haencodes⟩
        rw [hread, Option.some.injEq] at hsome
        rw [hsome]

/-- A key is that of a point of the curve. -/
theorem Made.exists_affine {k : P256PublicKey} (h : k.Made) : ∃ a, a.onCurve = true ∧ k = ofAffine a := by
  cases h with
  | read h =>
      obtain ⟨a, hcurve, -, rfl⟩ := ofBytes_eq_ok.mp h
      exact ⟨a, hcurve, rfl⟩
  | ofSecret secret =>
      obtain ⟨a, hcurve, hkey, -⟩ := secret.exists_affine
      exact ⟨a, hcurve, hkey⟩

section Points

variable {a : Affine}

theorem bytes_ofAffine (a : Affine) : (ofAffine a).bytes.length = 33 ∧
    ((ofAffine a).bytes.head? = some 0x02 ∨ (ofAffine a).bytes.head? = some 0x03) := by
  constructor
  · rw [ofAffine, Affine.compress, List.length_cons, Bytes.length_ofNat]
  · rw [ofAffine, Affine.compress, List.head?_cons]
    split
    · exact .inl rfl
    · exact .inr rfl

/-- The key of a point is read back from itself. -/
theorem ofBytes_bytes (h : a.onCurve = true) : ofBytes (ofAffine a).bytes = .ok (ofAffine a) :=
  ofBytes_eq_ok.mpr ⟨a, h, .compress, rfl⟩

theorem ofAffine_inj {b : Affine} (ha : a.onCurve = true) (hb : b.onCurve = true) :
    ofAffine a = ofAffine b ↔ a = b := by
  constructor
  · intro h
    have hread := Affine.ofBytes?_compress ha
    rw [P256PublicKey.mk.inj h, Affine.ofBytes?_compress hb] at hread
    exact (Option.some.inj hread).symm
  · rintro rfl
    rfl

/-- With the key of a point a signature is refused for its form or because it is not one of the key. -/
theorem kind_of_verify (h : a.onCurve = true) {message signature : Bytes} {e : SignatureError}
    (hverify : (ofAffine a).verify message signature = .error e) : e.kind ≠ .key := by
  rw [verify, ofAffine, Affine.ofBytes?_compress h] at hverify
  dsimp only at hverify
  split at hverify
  · split at hverify
    · cases hverify
    · cases hverify
      exact nofun
  · cases hverify
    exact nofun

end Points

/-- Every key is 33 bytes that start with the tag of a compressed point and are read as the key, and no signature is
refused because of it. Both encodings of a point of the curve are read as its key, and no two points have one key. -/
theorem made_usable :
    (∀ k : P256PublicKey, k.Made →
      k.bytes.length = 33 ∧ (k.bytes.head? = some 0x02 ∨ k.bytes.head? = some 0x03) ∧ ofBytes k.bytes = .ok k ∧
        ∀ message signature e, k.verify message signature = .error e → e.kind ≠ .key) ∧
    ∀ a b : Affine, a.onCurve = true → b.onCurve = true →
      ofBytes a.uncompressed = .ok (ofAffine a) ∧ ofBytes a.compress = .ok (ofAffine a) ∧
        (ofAffine a = ofAffine b ↔ a = b) := by
  constructor
  · intro k hk
    obtain ⟨a, hcurve, rfl⟩ := hk.exists_affine
    obtain ⟨hlength, hhead⟩ := bytes_ofAffine a
    exact ⟨hlength, hhead, ofBytes_bytes hcurve, fun _ _ _ hverify => kind_of_verify hcurve hverify⟩
  · intro a b ha hb
    exact ⟨ofBytes_eq_ok.mpr ⟨a, ha, .uncompressed, rfl⟩, ofBytes_bytes ha, ofAffine_inj ha hb⟩

/-- The base point, whose key is that of the secret one. -/
theorem made_usable_base :
    let base : Affine := ⟨Point.base.x, Point.base.y⟩
    let secret : P256Secret := ⟨1, by decide, by decide⟩
    base.onCurve = true ∧ ofBytes base.uncompressed = .ok secret.publicKey ∧
      secret.publicKey.verify [] [] = .error (.p256Form 0) ∧ secret.publicKey.bytes.length = 33 ∧
      ofBytes secret.publicKey.bytes = .ok secret.publicKey ∧ (SignatureError.p256Form 0).kind ≠ .key ∧
      ofBytes base.compress = ofBytes base.uncompressed := by
  intro base secret
  have hcurve : base.onCurve = true := by decide +kernel
  have hread : ofBytes base.uncompressed = .ok secret.publicKey := by decide +kernel
  have hverify : secret.publicKey.verify [] [] = .error (.p256Form 0) := by decide +kernel
  obtain ⟨hlength, -, hbytes, hkind⟩ := made_usable.1 secret.publicKey (.ofSecret secret)
  obtain ⟨huncompressed, hcompress, -⟩ := made_usable.2 base base hcurve hcurve
  exact ⟨hcurve, hread, hverify, hlength, hbytes, hkind [] [] _ hverify, hcompress.trans huncompressed.symm⟩

end P256PublicKey

end Attest
