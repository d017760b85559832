import Attest.Document.Attachment
import Attest.Document.OneOrMany

/-!
Verifiable credentials. A credential keeps the JSON object as it was read or made, which is what is
written and signed, and beside it what the object says: its contents and its proofs.
-/

namespace Attest

open Json (Draft Error Object Value readOnce)

/-- The contents of a credential without its proofs. Members without a field of their own are
custom ones. -/
structure CredentialContents where
  context : OneOrMany Value
  id : Option String
  types : OneOrMany String
  issuer : Option Value
  issued : Option Timestamp
  expires : Option Timestamp
  subject : Option Value
  custom : Object
  deriving DecidableEq

/-- An optional member of an object that is being written. -/
def optionalMember {α : Type} (name : String) (encode : α → Value) (value : Option α) :
    List (String × Value) := value.toList.map fun x => (name, encode x)

/-- A member of one or many values, left out if there is none. -/
def manyMember {α : Type} (name : String) (encode : α → Value) (m : OneOrMany α) :
    List (String × Value) := if m.isEmpty then [] else [(name, m.toJson encode)]

def timeJson (t : Timestamp) : Value := .string t.text

namespace CredentialContents

/-- The members of the contents in the order in which they are written, the custom ones last. A
custom member may repeat the name of another. -/
def members (c : CredentialContents) : List (String × Value) :=
  manyMember "@context" (fun v => v) c.context ++
  optionalMember "id" Value.string c.id ++
  manyMember "type" Value.string c.types ++
  optionalMember "issuer" (fun v => v) c.issuer ++
  optionalMember "issuanceDate" timeJson c.issued ++
  optionalMember "expirationDate" timeJson c.expires ++
  optionalMember "credentialSubject" (fun v => v) c.subject ++
  c.custom

def toJson (c : CredentialContents) : Value := .object c.members

/-- The members of contents that have been read so far. -/
structure Reading where
  context : Option (OneOrMany Value) := none
  id : Option (Option String) := none
  types : Option (OneOrMany String) := none
  issuer : Option (Option Value) := none
  issued : Option (Option Timestamp) := none
  expires : Option (Option Timestamp) := none
  subject : Option (Option Value) := none
  custom : Object := []

/-- Reads a member; one without a field of its own is a custom one. -/
def Reading.read (budget : Nat) (r : Reading) (name : String) (d : Draft) :
    Except Error Reading := do
  match name with
  | "@context" =>
    return { r with context := ← readOnce name r.context (OneOrMany.ofDraft some budget d) }
  | "id" => return { r with id := ← readOnce name r.id (d.optional Draft.text) }
  | "type" =>
    return { r with types := ← readOnce name r.types (OneOrMany.ofDraft Value.string? budget d) }
  | "issuer" => return { r with issuer := ← readOnce name r.issuer (d.optionalValue budget) }
  | "issuanceDate" =>
    return { r with issued := ← readOnce name r.issued (d.optional Draft.time) }
  | "expirationDate" =>
    return { r with expires := ← readOnce name r.expires (d.optional Draft.time) }
  | "credentialSubject" =>
    return { r with subject := ← readOnce name r.subject (d.optionalValue budget) }
  | _ => return { r with custom := r.custom.insert name (← d.value budget) }

/-- The contents that the members read make up. -/
def Reading.finish (r : Reading) : CredentialContents where
  context := r.context.getD .empty
  id := r.id.join
  types := r.types.getD .empty
  issuer := r.issuer.join
  issued := r.issued.join
  expires := r.expires.join
  subject := r.subject.join
  custom := r.custom

/-- The contents at a place of a document, nested at most `budget` deep. -/
def ofDraft (budget : Nat) : Draft → Except Error CredentialContents
  | .object members ending => do
    return (← Draft.foldMembers (Reading.read (budget - 1)) members ending {}).finish
  | d => d.unwanted "struct CredentialContents"

/-- The contents that an object says. -/
def ofObject (members : Object) : Except Error CredentialContents :=
  let v := Value.object members
  ofDraft v.depth v.draft

def parse (text : Bytes) : Except Error CredentialContents :=
  Json.decodeText (ofDraft Json.nestingLimit) text

/-- Equality of optional values, where the sign of a floating-point zero does not count. -/
def agreesOption : Option Value → Option Value → Bool
  | some a, some b => a.agrees b
  | none, none => true
  | _, _ => false

/-- Equality of contents, where the sign of a floating-point zero does not count. -/
def agrees (c d : CredentialContents) : Bool :=
  c.context.agrees Value.agrees d.context && c.id == d.id && c.types == d.types &&
    agreesOption c.issuer d.issuer && c.issued == d.issued && c.expires == d.expires &&
    agreesOption c.subject d.subject && (Value.object c.custom).agrees (.object d.custom)

end CredentialContents

/-- Why a text is not a credential or a presentation. -/
inductive CredentialError
  | json (cause : Json.Error)
  | notObject (what : String)
  | proof (cause : ProofDecodeError)
  deriving DecidableEq

def CredentialError.message : CredentialError → String
  | .json cause => "JSON error: " ++ cause.message
  | .notObject what => what ++ " must be a JSON object"
  | .proof cause => "invalid proof: " ++ cause.message

/-- A verifiable credential. -/
structure Credential where
  raw : Object
  contents : CredentialContents
  proofs : List Proof
  deriving DecidableEq

namespace Credential

/-- The credential with the given contents and no proofs. -/
def create (contents : CredentialContents) : Credential where
  raw := Dict.ofList contents.members
  contents := contents
  proofs := []

def parse (text : Bytes) : Except CredentialError Credential := do
  match ← (Json.parse text).mapError .json with
  | .object raw =>
    let proofs ← (decodeProofs (Dict.get? raw proofName)).mapError .proof
    let contents ← (CredentialContents.ofObject (unsecured raw)).mapError .json
    return { raw, contents, proofs }
  | _ => throw (.notObject "credential")

def toBytes (c : Credential) : Bytes := (Value.object c.raw).bytes

/-- Attaches a proof that a signer makes at the time `now`. The proofs become those of the signed
document; the object gets them first, but only if there are any. -/
def attachProof (now : Timestamp) (context : ProofContext) (signer : Signer) :
    ExceptT IntegrityError (StateM Credential) Unit := do
  let proofs ← signDocument now (← get).toBytes context signer
  unless proofs.isEmpty do
    modify fun c => { c with raw := c.raw.insert proofName (encodeProofs proofs) }
  modify fun c => { c with proofs }

/-- How the attaching of a proof to a credential ends, and how it leaves the credential. -/
def addProof (c : Credential) (now : Timestamp) (context : ProofContext) (signer : Signer) :
    Except IntegrityError Unit × Credential :=
  (attachProof now context signer).run.run c

def verify (c : Credential) (options : Option VerificationOptions) : Except IntegrityError Unit :=
  verifyDocument c.toBytes options

/-- Equality of credentials, where the sign of a floating-point zero does not count. -/
def agrees (c d : Credential) : Bool :=
  (Value.object c.raw).agrees (.object d.raw) && c.contents.agrees d.contents &&
    (encodeProofs c.proofs).agrees (encodeProofs d.proofs)

end Credential

end Attest
