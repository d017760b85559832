import Attest.Document.Context
import Attest.Document.Proof

/-!
The attaching and the checking of proofs through a signer and a verifier that the caller brings.
What a signer returns is read for its proofs only; whoever has no verifier gets no acceptance.
-/

namespace Attest

open Json (Draft Error ItemsLeft readOnce)

/-- Why proofs are not attached or not accepted. -/
inductive IntegrityError
  | missingVerifier
  | signing (cause : SigningError)
  | verification (cause : VerificationError)
  | decoding (cause : ProofDecodeError)
  deriving DecidableEq

namespace IntegrityError

def message : IntegrityError → String
  | .missingVerifier => "data integrity proof needs data integrity verifier"
  | .signing cause => "add data integrity proof: " ++ cause.message
  | .verification cause => "verify data integrity proof: " ++ cause.message
  | .decoding cause => "decode data integrity proof: " ++ cause.message

/-- The name of the class of failures to which an error belongs. -/
def failureClass : IntegrityError → String
  | .missingVerifier => "configuration"
  | .signing _ => "signer"
  | .verification _ => "verifier"
  | .decoding _ => "decode"

end IntegrityError

/-- Reads a member of a signed document; all but `proof` are passed over. -/
def readSignedMember (state : Option (Option Json.Value)) (name : String) (d : Draft) :
    Except Error (Option (Option Json.Value)) := do
  if name = proofName then
    readOnce name state (d.optionalValue (Json.nestingLimit - 1))
  else
    d.skip
    return state

/-- The member `proof` at the place of a signed document. -/
def signedProof : Draft → Except Error (Option Json.Value)
  | .object members ending => do
    return (← Draft.foldMembers readSignedMember members ending none).join
  | .array items ending => do
    let (proof, left) ←
      (ItemsLeft.mk items ending).next (Draft.optionalValue (Json.nestingLimit - 1))
    left.close
    return proof.join
  | d => d.unwanted "struct RawProof"

/-- The proofs of what a signer returned. -/
def decodeSigned (signed : Bytes) : Except ProofDecodeError (List Proof) := do
  decodeProofs (← (Json.decodeText signedProof signed).mapError .json)

/-- All proofs of a document after a signer has put one more into it at the time `now`. -/
def signDocument (now : Timestamp) (document : Bytes) (context : ProofContext) (signer : Signer) :
    Except IntegrityError (List Proof) := do
  let signed ← (signer document (context.resolve now).toOptions).mapError .signing
  (decodeSigned signed).mapError .decoding

/-- Checks the proofs of a document; without a verifier the document is not looked at. -/
def verifyDocument (document : Bytes) (options : Option VerificationOptions) :
    Except IntegrityError Unit :=
  match options with
  | none => .error .missingVerifier
  | some o =>
    match o.verifier with
    | none => .error .missingVerifier
    | some verifier => (verifier document o.toOptions).mapError .verification

end Attest
