import Attest.Curve.Edwards
import Attest.Hash.Sha512
import Attest.Key.Error

/-!
Ed25519 signatures. A public key is any 32 bytes; whether they are a point of the curve shows when a
signature is checked. A signature is checked without the cofactor, by comparing the bytes of the
point that it starts with. In texts a key stands behind the two bytes that mark its kind.
-/

namespace Attest

structure Ed25519PublicKey where
  bytes : Bytes
  length_eq : bytes.length = 32
  deriving DecidableEq

/-- An Ed25519 secret: the seed from which scalar and nonces are derived. -/
structure Ed25519Secret where
  seed : Bytes
  length_eq : seed.length = 32
  deriving DecidableEq

namespace Ed25519

open Edwards (Point)

/-- A digest as a scalar. -/
def scalarOf (digest : Bytes) : Nat := Bytes.toNatLittle digest % Edwards.order

/-- The scalar that ties the start of a signature to the key and the message. -/
def challenge (start key message : Bytes) : Nat := scalarOf (sha512 (start ++ key ++ message))

/-- The number of the first 32 bytes of a digest with the lowest three bits cleared, and of the
highest two only the lower one set. -/
def clamped (digest : Bytes) : Nat :=
  let n := Bytes.toNatLittle (digest.take 32)
  n % Nat.pow 2 254 / 8 * 8 + Nat.pow 2 254

end Ed25519

namespace Ed25519Secret

def scalar (k : Ed25519Secret) : Nat := Ed25519.clamped (sha512 k.seed)

/-- The bytes that keep the nonces of a key secret. -/
def noncePrefix (k : Ed25519Secret) : Bytes := (sha512 k.seed).drop 32

def publicKey (k : Ed25519Secret) : Ed25519PublicKey where
  bytes := (Edwards.Point.base.multiply k.scalar).compress
  length_eq := Bytes.length_ofNatLittle _ _

def sign (k : Ed25519Secret) (message : Bytes) : Bytes :=
  let nonce := Ed25519.scalarOf (sha512 (k.noncePrefix ++ message))
  let start := (Edwards.Point.base.multiply nonce).compress
  let challenge := Ed25519.challenge start k.publicKey.bytes message
  start ++ Bytes.ofNatLittle 32 ((nonce + challenge * k.scalar) % Edwards.order)

end Ed25519Secret

namespace Ed25519PublicKey

/-- The two bytes that mark an Ed25519 public key in a text. -/
def codec : Bytes := [0xed, 0x01]

def multibase (k : Ed25519PublicKey) : String := Multibase.encode (codec ++ k.bytes)

def ofBytes? (bytes : Bytes) : Option Ed25519PublicKey :=
  if h : bytes.length = 32 then some ⟨bytes, h⟩ else none

/-- The key that a multibase text holds, in whatever code it is written. -/
def ofMultibase (text : String) : Except SignatureError Ed25519PublicKey :=
  match Multibase.decode text with
  | .error cause => .error (.keyText text cause)
  | .ok (_, bytes) =>
    if bytes.take 2 = codec then
      match ofBytes? (bytes.drop 2) with
      | some key => .ok key
      | none => .error (.keyLength (bytes.length - 2))
    else .error .keyCodec

def verify (k : Ed25519PublicKey) (message signature : Bytes) : Except SignatureError Unit :=
  match Edwards.decompress? k.bytes with
  | none => .error .edwardsPoint
  | some point =>
    if signature.length = 64 then
      let start := signature.take 32
      let scalar := Bytes.toNatLittle (signature.drop 32)
      if scalar < Edwards.order then
        let challenge := Ed25519.challenge start k.bytes message
        let expected :=
          (Edwards.Point.base.multiply scalar).add (point.neg.multiply challenge)
        if expected.compress = start then .ok () else .error .edwardsEquation
      else .error .edwardsScalar
    else .error (.edwardsLength signature.length)

end Ed25519PublicKey

end Attest
