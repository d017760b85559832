import Attest.Integrity.Sign

/-!
The checking of proofs. Every proof of the type that is asked for must pass, and there must be one;
proofs of other types are passed over. The parts of a proof are checked in a fixed order, and the
first fault of the first faulty entry is reported.
-/

namespace Attest

open Json (Object Value)

/-- What is wrong with the form of a proof. -/
inductive ProofFault
  | entryNotObject (kind : String)
  | missing (name : String)
  | notString (name kind : String)
  | time (name : String) (cause : TimeError)
  | value (cause : SignatureError)
  | other (reason : String)
  deriving DecidableEq

def ProofFault.message : ProofFault → String
  | .entryNotObject kind => "proof entry must be an object, got " ++ kind
  | .missing name => "missing " ++ name
  | .notString name kind => name ++ " must be a string, got " ++ kind
  | .time name cause => name ++ ": " ++ cause.message
  | .value cause => "proofValue: " ++ cause.message
  | .other reason => reason

/-- Why the proofs of a document are not accepted. -/
inductive VerificationError
  | unsupportedProofType (proofType : String)
  | malformedDocument (reason : String)
  | missingProof
  | malformedProof (fault : ProofFault)
  | unsupportedSuite (suite : String)
  | purposeMismatch (expected found : String)
  | domainMismatch (expected found : String)
  | challengeMismatch (expected found : String)
  | expired (time : Timestamp)
  | unresolvedKey (verificationMethod reason : String)
  | keyMismatch (mismatch : KeyMismatch)
  | invalidSignature (cause : SignatureError)
  deriving DecidableEq

def VerificationError.message : VerificationError → String
  | .unsupportedProofType t => "unsupported proof type: " ++ Text.quoted t
  | .malformedDocument reason => "malformed document: " ++ reason
  | .missingProof => "document has no data integrity proof"
  | .malformedProof fault => "malformed proof: " ++ fault.message
  | .unsupportedSuite s => "unsupported cryptosuite: " ++ Text.quoted s
  | .purposeMismatch expected found =>
    "proof purpose mismatch: expected " ++ Text.quoted expected ++ ", found " ++ Text.quoted found
  | .domainMismatch expected found =>
    "proof domain mismatch: expected " ++ Text.quoted expected ++ ", found " ++ Text.quoted found
  | .challengeMismatch expected found =>
    "proof challenge mismatch: expected " ++ Text.quoted expected ++ ", found " ++ Text.quoted found
  | .expired time => "proof expired at " ++ time.text
  | .unresolvedKey verificationMethod reason =>
    "cannot resolve verification method " ++ Text.quoted verificationMethod ++ ": " ++ reason
  | .keyMismatch m => m.message
  | .invalidSignature cause => "invalid signature: " ++ cause.message

/-- Checks the proofs of a document. -/
abbrev Verifier := (document : Bytes) → ProofOptions → Except VerificationError Unit

namespace ProofCheck

/-- The text of an optional member of a proof; a null counts as absent. -/
def text? (proof : Object) (name : String) : Except VerificationError (Option String) :=
  match proof.get? name with
  | none | some .null => .ok none
  | some (.string s) => .ok (some s)
  | some v => .error (.malformedProof (.notString name v.kind))

def proofValue (proof : Object) : Except VerificationError String :=
  match proof.get? "proofValue" with
  | some (.string s) => .ok s
  | some v => .error (.malformedProof (.notString "proofValue" v.kind))
  | none => .error (.malformedProof (.missing "proofValue"))

def suite (proof : Object) : Except VerificationError Cryptosuite := do
  let name := (← text? proof "cryptosuite").getD ""
  match Cryptosuite.ofName? name with
  | some suite => return suite
  | none => throw (.unsupportedSuite name)

/-- Checks that the purpose is the expected one. -/
def purpose (proof : Object) (expected : String) : Except VerificationError Unit := do
  let found := (← text? proof "proofPurpose").getD ""
  if found ≠ expected then throw (.purposeMismatch expected found)

/-- Whether a member `domain` names a domain, alone or among others. -/
def namesDomain (found : Option Value) (expected : String) : Bool :=
  match found with
  | some (.string s) => s == expected
  | some (.array items) => items.any fun item => item.string? == some expected
  | _ => false

/-- A member `domain` as messages show it. -/
def domainText : Option Value → String
  | some (.string s) => s
  | some v => v.text
  | none => ""

/-- Checks that the domain is the expected one, if one is expected. -/
def domain (proof : Object) (expected : String) : Except VerificationError Unit :=
  let found := proof.get? "domain"
  if expected = "" || namesDomain found expected then .ok ()
  else .error (.domainMismatch expected (domainText found))

/-- Checks that the challenge is the expected one, if one is expected. -/
def challenge (proof : Object) (expected : String) : Except VerificationError Unit := do
  if expected ≠ "" then
    let found := (← text? proof "challenge").getD ""
    if found ≠ expected then throw (.challengeMismatch expected found)

/-- The time in an optional member of a proof. -/
def time? (proof : Object) (name : String) : Except VerificationError (Option Timestamp) := do
  match ← text? proof name with
  | none => return none
  | some s =>
    match Timestamp.parseLenient s with
    | .ok t => return some t
    | .error cause => throw (.malformedProof (.time name cause))

/-- Checks that the time of expiry, if there is one, does not lie before `now`. -/
def expiry (proof : Object) (now : Timestamp) : Except VerificationError Unit := do
  if let some t ← time? proof "expires" then
    if t.hasPassed now then throw (.expired t)

/-- The key of the verification method that a proof names, if it is one for the suite. -/
def key (resolve : Resolver) (proof : Object) (suite : Cryptosuite) :
    Except VerificationError PublicKey := do
  match ← text? proof "verificationMethod" with
  | none => throw (.malformedProof (.missing "verificationMethod"))
  | some verificationMethod =>
    match resolve verificationMethod with
    | .error reason => throw (.unresolvedKey verificationMethod reason)
    | .ok key =>
      match keyMismatch? verificationMethod suite key.algorithm with
      | some mismatch => throw (.keyMismatch mismatch)
      | none => return key

end ProofCheck

/-- Checks one proof of a document that is given without its proofs. -/
def verifyEntry (resolve : Resolver) (now : Timestamp) (o : ProofOptions)
    (content proof : Object) : Except VerificationError Unit := do
  let value ← ProofCheck.proofValue proof
  let configuration := proof.erase "proofValue"
  let suite ← ProofCheck.suite configuration
  ProofCheck.purpose configuration o.purpose
  ProofCheck.domain configuration o.domain
  ProofCheck.challenge configuration o.challenge
  let _ ← ProofCheck.time? configuration "created"
  ProofCheck.expiry configuration now
  let key ← ProofCheck.key resolve configuration suite
  let signature ← (ProofValue.decode value).mapError fun e => .malformedProof (.value e)
  (key.verify (hashData configuration content) signature).mapError .invalidSignature

/-- Whether the members of an entry make it a proof of the type that is checked here. -/
def isDataIntegrityEntry (members : Object) : Bool :=
  (members.get? "type").bind Value.string? == some ProofOptions.dataIntegrityProof

/-- Checks entries in order, passing over proofs of other types, and counts the proofs checked. -/
def verifyEntries (check : Object → Except VerificationError Unit) :
    List Value → Except VerificationError Nat
  | [] => .ok 0
  | .object members :: entries => do
    if isDataIntegrityEntry members then
      check members
      return (← verifyEntries check entries) + 1
    else verifyEntries check entries
  | v :: _ => .error (.malformedProof (.entryNotObject v.kind))

/-- Checks the proofs of a document at the time `now`, finding keys through `resolve`. -/
def verifyProof (resolve : Resolver) (now : Timestamp) : Verifier := fun document o => do
  unless o.isDataIntegrity do throw (.unsupportedProofType o.proofType)
  let members ← (parseDocument document).mapError fun e => .malformedDocument e.message
  match proofOf members with
  | none => throw .missingProof
  | some proof =>
    let checked ←
      verifyEntries (verifyEntry resolve now o (unsecured members)) (proofEntries proof)
    if checked = 0 then throw .missingProof

end Attest
