import Attest.Curve.Weierstrass
import Attest.Hash.Hmac
import Attest.Key.Error

/-!
ECDSA signatures over the curve P-256 with SHA-256. Public keys are kept as compressed points.
Signatures are the two scalars in 32 bytes each. The nonce of a signature is derived from the secret
and the digest of the message as RFC 6979 does it, so that signing a message twice gives the same
signature. The digest goes into the nonce as its 32 bytes, whether or not they stand for a number
below the order; the signature itself uses its residue.
-/

namespace Attest

open Weierstrass (Affine Point order)

/-- A P-256 public key, as the bytes of a compressed point. -/
structure P256PublicKey where
  bytes : Bytes
  deriving DecidableEq

/-- A P-256 secret scalar. -/
structure P256Secret where
  scalar : Nat
  scalar_pos : 0 < scalar
  scalar_lt : scalar < order
  deriving DecidableEq

namespace P256

/-- A digest as a scalar. -/
def digestScalar (digest : Bytes) : Nat := Bytes.toNat digest % order

/-- The state from which candidates for a nonce are drawn. -/
structure NonceState where
  key : Bytes
  value : Bytes

namespace NonceState

/-- Stirs bytes into the state, after a mark. -/
def stir (s : NonceState) (mark : UInt8) (bytes : Bytes) : NonceState :=
  let key := hmacSha256 s.key (s.value ++ mark :: bytes)
  ⟨key, hmacSha256 key s.value⟩

/-- The state for a secret and the digest of a message. -/
def start (scalar : Nat) (digest : Bytes) : NonceState :=
  let bytes := Bytes.ofNat 32 scalar ++ digest
  let empty : NonceState := ⟨List.replicate 32 0, List.replicate 32 1⟩
  (empty.stir 0 bytes).stir 1 bytes

/-- The next candidate for a nonce and the state after it. -/
def draw (s : NonceState) : Nat × NonceState :=
  let value := hmacSha256 s.key s.value
  let key := hmacSha256 s.key (value ++ [0])
  (Bytes.toNat value, ⟨key, hmacSha256 key value⟩)

end NonceState

/-- The two scalars of a signature made with a nonce, unless one of them is zero. -/
def signWith? (scalar message nonce : Nat) : Option (Nat × Nat) := do
  guard (1 ≤ nonce ∧ nonce < order)
  let point ← (Point.base.multiply nonce).affine?
  let r := point.x % order
  let s := Modular.mul order (Modular.inverse order nonce) (message + r * scalar)
  guard (r ≠ 0 ∧ s ≠ 0)
  return (r, s)

/-- The first signature that one of the next `count` candidates for a nonce gives. -/
def signFrom (scalar message : Nat) : (count : Nat) → NonceState → Nat × Nat
  | 0, _ => (0, 0)
  | count + 1, state =>
    let (nonce, state) := state.draw
    match signWith? scalar message nonce with
    | some signature => signature
    | none => signFrom scalar message count state

/-- How many candidates for a nonce are tried. All but a few numbers of 256 bits are fit for one. -/
def nonceTries : Nat := 64

end P256

namespace P256PublicKey

/-- The key of a point. -/
def ofAffine (a : Affine) : P256PublicKey := ⟨a.compress⟩

/-- The key of a point given in one of its encodings. -/
def ofBytes (bytes : Bytes) : Except SignatureError P256PublicKey :=
  match Affine.ofBytes? bytes with
  | some a => .ok (ofAffine a)
  | none => .error .p256Point

def verify (k : P256PublicKey) (message signature : Bytes) : Except SignatureError Unit :=
  match Affine.ofBytes? k.bytes with
  | none => .error .p256Point
  | some key =>
    let r := Bytes.toNat (signature.take 32)
    let s := Bytes.toNat (signature.drop 32)
    if signature.length = 64 ∧ (1 ≤ r ∧ r < order) ∧ (1 ≤ s ∧ s < order) then
      let inverse := Modular.inverse order s
      let u := Modular.mul order (P256.digestScalar (sha256 message)) inverse
      let v := Modular.mul order r inverse
      let point := (Point.base.multiply u).add ((Point.ofAffine key).multiply v)
      if point.affine?.map (·.x % order) = some r then .ok () else .error .p256Equation
    else .error (.p256Form signature.length)

end P256PublicKey

namespace P256Secret

/-- The secret whose scalar is written in 32 bytes. -/
def ofBytes (bytes : Bytes) : Except SignatureError P256Secret :=
  let scalar := Bytes.toNat bytes
  if h : 0 < scalar ∧ scalar < order then .ok ⟨scalar, h.1, h.2⟩ else .error .p256Secret

def publicKey (k : P256Secret) : P256PublicKey :=
  .ofAffine (((Point.base.multiply k.scalar).affine?).getD ⟨0, 0⟩)

def sign (k : P256Secret) (message : Bytes) : Bytes :=
  let digest := sha256 message
  let (r, s) := P256.signFrom k.scalar (P256.digestScalar digest) P256.nonceTries
    (.start k.scalar digest)
  Bytes.ofNat 32 r ++ Bytes.ofNat 32 s

end P256Secret

end Attest
