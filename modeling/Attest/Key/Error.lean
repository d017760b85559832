import Attest.Multibase.Codec
import Attest.Text.Quoted

/-!
Why a key, a signature or the text of one is refused. Each cause belongs to one of three kinds:
the key is unusable, the bytes are not in the form of a signature, or the signature is not one of
the key over the message.
-/

namespace Attest

/-- The kinds of refusals. -/
inductive SignatureErrorKind
  | key
  | encoding
  | mismatch
  deriving DecidableEq

/-- Why a key or a signature is refused. -/
inductive SignatureError
  -- The key is unusable.
  | edwardsPoint
  | p256Point
  | p256Secret
  | keyText (text : String) (cause : MultibaseError)
  | keyCodec
  | keyLength (length : Nat)
  -- The bytes are not in the form of a signature.
  | edwardsLength (length : Nat)
  | p256Form (length : Nat)
  | proofText (cause : MultibaseError)
  | proofBase (base : Base)
  -- The signature is not one of the key over the message.
  | edwardsScalar
  | edwardsEquation
  | p256Equation
  /-- A refusal of one of the kinds, for a reason that only its words tell. -/
  | other (kind : SignatureErrorKind) (reason : String)
  deriving DecidableEq

namespace SignatureError

def kind : SignatureError → SignatureErrorKind
  | .edwardsPoint | .p256Point | .p256Secret | .keyText _ _ | .keyCodec | .keyLength _ => .key
  | .edwardsLength _ | .p256Form _ | .proofText _ | .proofBase _ => .encoding
  | .edwardsScalar | .edwardsEquation | .p256Equation => .mismatch
  | .other kind _ => kind

def reason : SignatureError → String
  | .edwardsPoint =>
    "not an Ed25519 point: signature error: Cannot decompress Edwards point"
  | .p256Point => "invalid P-256 public key: signature error"
  | .p256Secret => "invalid P-256 secret scalar: signature error"
  | .keyText text cause =>
    "invalid multibase key " ++ Text.quoted text ++ ": " ++ cause.message
  | .keyCodec => "missing ed25519-pub multicodec prefix"
  | .keyLength length =>
    "Ed25519 public key must be 32 bytes, got " ++ toString length
  | .edwardsLength length =>
    "Ed25519 signature is " ++ toString length ++ " bytes, expected 64"
  | .p256Form length =>
    "malformed P-256 signature (" ++ toString length ++ " bytes): signature error"
  | .proofText cause => "invalid multibase proof value: " ++ cause.message
  | .proofBase base => "proof value must be base58-btc multibase, got " ++ base.name
  | .edwardsScalar => "Ed25519: signature error: Cannot use scalar with high-bit set"
  | .edwardsEquation => "Ed25519: signature error: Verification equation was not satisfied"
  | .p256Equation => "P-256: signature error"
  | .other _ reason => reason

def message (e : SignatureError) : String :=
  (match e.kind with
    | .key => "key error: "
    | .encoding => "encoding error: "
    | .mismatch => "signature verification failed: ") ++ e.reason

end SignatureError

end Attest
