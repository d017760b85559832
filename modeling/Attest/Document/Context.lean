import Attest.Integrity.Verify

/-!
What a caller says about a proof to be made or about the proofs to be accepted, and the defaults
that fill in the rest. Both sides take an empty purpose for the same one, so that a proof made
with all defaults is accepted with all defaults.
-/

namespace Attest

/-- The purpose that an empty one stands for. -/
def assertionMethod : String := "assertionMethod"

/-- A purpose with the default filled in. -/
def resolvePurpose (purpose : String) : String := if purpose = "" then assertionMethod else purpose

/-- A proof to be made, as the caller describes it. -/
structure ProofContext where
  verificationMethod : String
  suite : String
  purpose : String
  created : Option Timestamp
  expires : Option Timestamp
  domain : String
  challenge : String
  deriving DecidableEq

/-- A proof to be made, with all defaults filled in. -/
structure ResolvedContext where
  verificationMethod : String
  suite : String
  purpose : String
  created : Timestamp
  expires : Option Timestamp
  domain : String
  challenge : String
  deriving DecidableEq

namespace ProofContext

/-- The description that names a key and a suite and leaves the rest open. -/
def ofKey (verificationMethod suite : String) : ProofContext :=
  ⟨verificationMethod, suite, "", none, none, "", ""⟩

/-- The description with its defaults filled in at the time `now`. -/
def resolve (c : ProofContext) (now : Timestamp) : ResolvedContext where
  verificationMethod := c.verificationMethod
  suite := c.suite
  purpose := resolvePurpose c.purpose
  created := c.created.getD now
  expires := c.expires
  domain := c.domain
  challenge := c.challenge

end ProofContext

/-- The options that a signer is given. -/
def ResolvedContext.toOptions (c : ResolvedContext) : ProofOptions where
  purpose := c.purpose
  verificationMethod := c.verificationMethod
  proofType := ProofOptions.dataIntegrityProof
  suite := c.suite
  domain := c.domain
  challenge := c.challenge
  created := some c.created
  expires := c.expires

/-- The proofs to be accepted, as the caller describes them, and who is to check them. -/
structure VerificationOptions where
  verifier : Option Verifier
  purpose : String
  domain : String
  challenge : String

namespace VerificationOptions

/-- The options that a verifier is given. -/
def toOptions (o : VerificationOptions) : ProofOptions where
  purpose := resolvePurpose o.purpose
  verificationMethod := ""
  proofType := ProofOptions.dataIntegrityProof
  suite := ""
  domain := o.domain
  challenge := o.challenge
  created := none
  expires := none

/-- The description as it is shown to a developer. -/
def display (o : VerificationOptions) : String :=
  "VerificationOptions \x7b verifier: " ++
    (if o.verifier.isSome then "Some(\"<verifier>\")" else "None") ++
    ", purpose: " ++ Text.quoted o.purpose ++ ", domain: " ++ Text.quoted o.domain ++
    ", challenge: " ++ Text.quoted o.challenge ++ " \x7d"

end VerificationOptions

end Attest
