import Attest.Integrity.Keys
import Attest.Integrity.Options
import Attest.Integrity.Secured
import Attest.Integrity.Suite

/-!
The making of proofs. A proof signs the document without any proofs, so that the proofs of a
document do not depend on each other, and is put behind those that are there already.
-/

namespace Attest

open Json (Object Value)

/-- A key that is not of the algorithm which the suite needs. -/
structure KeyMismatch where
  verificationMethod : String
  suite : String
  algorithm : String
  expected : String
  deriving DecidableEq

def KeyMismatch.message (m : KeyMismatch) : String :=
  "key for " ++ m.verificationMethod ++ " is " ++ m.algorithm ++ ", cryptosuite " ++ m.suite ++
    " needs " ++ m.expected

/-- The mismatch of a key and a suite, if there is one. -/
def keyMismatch? (verificationMethod : String) (suite : Cryptosuite) (algorithm : KeyAlgorithm) :
    Option KeyMismatch :=
  if algorithm = suite.algorithm then none
  else some ⟨verificationMethod, suite.name, algorithm.name, suite.algorithm.name⟩

/-- Why a proof is not made. -/
inductive SigningError
  | unsupportedProofType (proofType : String)
  | unsupportedSuite (suite : String)
  | unknownVerificationMethod (verificationMethod : String)
  | keyMismatch (mismatch : KeyMismatch)
  | malformedDocument (reason : String)
  | unserializable (cause : Json.Error)
  deriving DecidableEq

def SigningError.message : SigningError → String
  | .unsupportedProofType t => "unsupported proof type: " ++ Text.quoted t
  | .unsupportedSuite s => "unsupported cryptosuite: " ++ Text.quoted s
  | .unknownVerificationMethod m => "no signing key for verification method " ++ Text.quoted m
  | .keyMismatch m => m.message
  | .malformedDocument reason => "malformed document: " ++ reason
  | .unserializable cause => "failed to serialize signed document: " ++ cause.message

/-- Puts a proof into a document. -/
abbrev Signer := (document : Bytes) → ProofOptions → Except SigningError Bytes

/-- The members of a proof but for its value: the type, the suite, the time and the verification
method, the purpose, the domain and the challenge if they are not empty, and the time of expiry if
there is one. -/
def proofConfiguration (o : ProofOptions) (suite : Cryptosuite) (created : Timestamp) : Object :=
  let unlessEmpty (name text : String) : List (String × Value) :=
    if text = "" then [] else [(name, .string text)]
  Dict.ofList ([("type", .string ProofOptions.dataIntegrityProof),
    ("cryptosuite", .string suite.name),
    ("created", .string created.text),
    ("verificationMethod", .string o.verificationMethod)] ++
    unlessEmpty "proofPurpose" o.purpose ++
    o.expires.toList.map (fun t => ("expires", .string t.text)) ++
    unlessEmpty "domain" o.domain ++
    unlessEmpty "challenge" o.challenge)

/-- The proof that a key makes for a document without proofs. -/
def makeProof (key : KeyPair) (configuration unsecured : Object) : Object :=
  configuration.insert "proofValue"
    (.string (ProofValue.encode (key.sign (hashData configuration unsecured))))

namespace Keyring

/-- The suite and the key that the options name. -/
def select (r : Keyring) (o : ProofOptions) : Except SigningError (Cryptosuite × KeyPair) :=
  if o.isDataIntegrity then
    match Cryptosuite.ofName? o.suite with
    | none => .error (.unsupportedSuite o.suite)
    | some suite =>
      match r.keys.get? o.verificationMethod with
      | none => .error (.unknownVerificationMethod o.verificationMethod)
      | some key =>
        match keyMismatch? o.verificationMethod suite key.algorithm with
        | some mismatch => .error (.keyMismatch mismatch)
        | none => .ok (suite, key)
  else .error (.unsupportedProofType o.proofType)

/-- Puts a proof made with the options into a document. A proof whose time of creation is not given
is made at the time `now`. -/
def addProof (r : Keyring) (now : Timestamp) : Signer := fun document o => do
  let (suite, key) ← r.select o
  let members ← (parseDocument document).mapError fun e => .malformedDocument e.message
  let content := unsecured members
  let proof := makeProof key (proofConfiguration o suite (o.created.getD now)) content
  return (Value.object
    (content.insert proofName (appendProof (proofOf members) (.object proof)))).bytes

end Keyring

end Attest
