import Attest.Hash.Sha256
import Attest.Json.Canonical
import Attest.Key.Pair

/-!
Cryptosuites, and the bytes that their signatures are made over: the digest of the canonical proof
configuration followed by the digest of the canonical document without its proofs. The suites differ
only in the algorithm of the key.
-/

namespace Attest

/-- The supported cryptosuites. -/
inductive Cryptosuite
  | ecdsa2019
  | eddsa2022
  deriving DecidableEq

namespace Cryptosuite

/-- The identifier of a suite. -/
def name : Cryptosuite → String
  | .ecdsa2019 => "ecdsa-2019"
  | .eddsa2022 => "eddsa-2022"

/-- The suite with an identifier. -/
def ofName? (name : String) : Option Cryptosuite :=
  if name = "ecdsa-2019" then some .ecdsa2019
  else if name = "eddsa-2022" then some .eddsa2022
  else none

def algorithm : Cryptosuite → KeyAlgorithm
  | .ecdsa2019 => .p256
  | .eddsa2022 => .ed25519

theorem ofName?_name (s : Cryptosuite) : ofName? s.name = some s := by
  cases s <;> decide

theorem eq_name_of_ofName? {name : String} {s : Cryptosuite} (h : ofName? name = some s) :
    name = s.name := by
  unfold ofName? at h
  split at h
  · cases h; assumption
  split at h
  · cases h; assumption
  · cases h

end Cryptosuite

/-- The 64 bytes that tie a configuration and a document together for a signature. -/
def signingInput (configuration document : Json.Value) : Bytes :=
  sha256 configuration.canonicalBytes ++ sha256 document.canonicalBytes

/-- The bytes that a proof with the given members, its value left out, signs of a document. -/
def hashData (configuration unsecured : Json.Object) : Bytes :=
  signingInput (.object configuration) (.object unsecured)

end Attest
