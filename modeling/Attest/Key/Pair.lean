import Attest.Key.Ed25519
import Attest.Key.P256

/-!
Keys of either algorithm.
-/

namespace Attest

inductive KeyAlgorithm
  | ed25519
  | p256
  deriving DecidableEq

namespace KeyAlgorithm

def name : KeyAlgorithm → String
  | .ed25519 => "Ed25519"
  | .p256 => "P-256"

end KeyAlgorithm

/-- A public key of either algorithm. -/
inductive PublicKey
  | ed25519 (key : Ed25519PublicKey)
  | p256 (key : P256PublicKey)
  deriving DecidableEq

/-- A secret key of either algorithm, which stands for the pair of it and its public key. -/
inductive KeyPair
  | ed25519 (secret : Ed25519Secret)
  | p256 (secret : P256Secret)
  deriving DecidableEq

namespace PublicKey

def algorithm : PublicKey → KeyAlgorithm
  | .ed25519 _ => .ed25519
  | .p256 _ => .p256

def bytes : PublicKey → Bytes
  | .ed25519 key => key.bytes
  | .p256 key => key.bytes

def verify : PublicKey → (message signature : Bytes) → Except SignatureError Unit
  | .ed25519 key => key.verify
  | .p256 key => key.verify

/-- A key as it is shown to a developer: an Ed25519 key in full, the first bytes of a P-256 key. -/
def display : PublicKey → String
  | .ed25519 key => "Ed25519(Ed25519PublicKey(" ++ Text.quoted key.multibase ++ "))"
  | .p256 key => "P256(P256PublicKey(" ++ Bytes.toHex (key.bytes.take 4) ++ "...))"

end PublicKey

namespace KeyPair

def algorithm : KeyPair → KeyAlgorithm
  | .ed25519 _ => .ed25519
  | .p256 _ => .p256

def publicKey : KeyPair → PublicKey
  | .ed25519 secret => .ed25519 secret.publicKey
  | .p256 secret => .p256 secret.publicKey

def sign : KeyPair → (message : Bytes) → Bytes
  | .ed25519 secret => secret.sign
  | .p256 secret => secret.sign

/-- A key pair as it is shown to a developer: nothing but its algorithm. -/
def display : KeyPair → String
  | .ed25519 _ => "Ed25519(Ed25519KeyPair(<private>))"
  | .p256 _ => "P256(P256KeyPair(<private>))"

end KeyPair

namespace ProofValue

/-- A signature as the text of a proof value. -/
def encode (signature : Bytes) : String := Multibase.encode signature

/-- The signature that the text of a proof value holds; only base 58 is allowed. -/
def decode (text : String) : Except SignatureError Bytes :=
  match Multibase.decode text with
  | .error cause => .error (.proofText cause)
  | .ok (base, bytes) => if base = .base58Btc then .ok bytes else .error (.proofBase base)

end ProofValue

end Attest
