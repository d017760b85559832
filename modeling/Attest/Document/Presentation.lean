import Attest.Document.Credential

/-!
Verifiable presentations. A presentation has no object beside its fields: the fields are the
document. Attaching a proof replaces the proofs by those of the signed document, also if that has
none.
-/

namespace Attest

open Json (Draft Error Object Value readOnce)

/-- A verifiable presentation. Members without a field of their own are custom ones. -/
structure Presentation where
  context : OneOrMany Value
  id : Option String
  types : OneOrMany String
  holder : Option Value
  credentials : OneOrMany Value
  proofs : List Proof
  custom : Object
  deriving DecidableEq

namespace Presentation

/-- The presentation that says nothing. -/
def empty : Presentation where
  context := .empty
  id := none
  types := .empty
  holder := none
  credentials := .empty
  proofs := []
  custom := []

/-- The JSON-LD context of credentials and presentations. -/
def contextV1 : String := "https://www.w3.org/2018/credentials/v1"

/-- The type of every presentation. -/
def baseType : String := "VerifiablePresentation"

/-- The presentation without holder, credentials and proofs. -/
def new : Presentation :=
  { empty with context := .many [.string contextV1], types := .many [baseType] }

/-- The members of the presentation in the order in which they are written, the custom ones last. A
custom member may repeat the name of another. -/
def members (p : Presentation) : List (String × Value) :=
  manyMember "@context" (fun v => v) p.context ++
  optionalMember "id" Value.string p.id ++
  manyMember "type" Value.string p.types ++
  optionalMember "holder" (fun v => v) p.holder ++
  manyMember "verifiableCredential" (fun v => v) p.credentials ++
  (if p.proofs.isEmpty then [] else [(proofName, encodeProofs p.proofs)]) ++
  p.custom

def toJson (p : Presentation) : Value := .object p.members

def toBytes (p : Presentation) : Bytes := p.toJson.bytes

/-- The members of a presentation that have been read so far. -/
structure Reading where
  context : Option (OneOrMany Value) := none
  id : Option (Option String) := none
  types : Option (OneOrMany String) := none
  holder : Option (Option Value) := none
  credentials : Option (OneOrMany Value) := none
  proofs : Option (List Proof) := none
  custom : Object := []

/-- The proofs at a place of a document. -/
def readProofs (budget : Nat) (d : Draft) : Except Error (List Proof) := do
  (decodeProofs (← d.optionalValue budget)).mapError fun e => .refused e.message

/-- Reads a member; one without a field of its own is a custom one. -/
def Reading.read (budget : Nat) (r : Reading) (name : String) (d : Draft) :
    Except Error Reading := do
  match name with
  | "@context" =>
    return { r with context := ← readOnce name r.context (OneOrMany.ofDraft some budget d) }
  | "id" => return { r with id := ← readOnce name r.id (d.optional Draft.text) }
  | "type" =>
    return { r with types := ← readOnce name r.types (OneOrMany.ofDraft Value.string? budget d) }
  | "holder" => return { r with holder := ← readOnce name r.holder (d.optionalValue budget) }
  | "verifiableCredential" =>
    return { r with credentials := ← readOnce name r.credentials (OneOrMany.ofDraft some budget d) }
  | "proof" => return { r with proofs := ← readOnce name r.proofs (readProofs budget d) }
  | _ => return { r with custom := r.custom.insert name (← d.value budget) }

/-- The presentation that the members read make up. -/
def Reading.finish (r : Reading) : Presentation where
  context := r.context.getD .empty
  id := r.id.join
  types := r.types.getD .empty
  holder := r.holder.join
  credentials := r.credentials.getD .empty
  proofs := r.proofs.getD []
  custom := r.custom

/-- The presentation at a place of a document, nested at most `budget` deep. -/
def ofDraft (budget : Nat) : Draft → Except Error Presentation
  | .object members ending => do
    return (← Draft.foldMembers (Reading.read (budget - 1)) members ending {}).finish
  | d => d.unwanted "struct Presentation"

def ofObject (members : Object) : Except Error Presentation :=
  let v := Value.object members
  ofDraft v.depth v.draft

def parse (text : Bytes) : Except CredentialError Presentation := do
  match ← (Json.parse text).mapError .json with
  | .object members => (ofObject members).mapError .json
  | _ => throw (.notObject "presentation")

/-- Puts credentials, as they are written, behind those that are there. -/
def addCredentials (p : Presentation) (credentials : List Credential) : Presentation :=
  { p with
    credentials := credentials.foldl (fun m c => m.push (.object c.raw)) p.credentials }

/-- Attaches a proof that a signer makes at the time `now`. -/
def attachProof (now : Timestamp) (context : ProofContext) (signer : Signer) :
    ExceptT IntegrityError (StateM Presentation) Unit := do
  let proofs ← signDocument now (← get).toBytes context signer
  modify fun p => { p with proofs }

/-- How the attaching of a proof to a presentation ends, and how it leaves the presentation. -/
def addProof (p : Presentation) (now : Timestamp) (context : ProofContext) (signer : Signer) :
    Except IntegrityError Unit × Presentation :=
  (attachProof now context signer).run.run p

def verify (p : Presentation) (options : Option VerificationOptions) : Except IntegrityError Unit :=
  verifyDocument p.toBytes options

/-- Equality of presentations, where the sign of a floating-point zero does not count. -/
def agrees (p q : Presentation) : Bool :=
  p.context.agrees Value.agrees q.context && p.id == q.id && p.types == q.types &&
    CredentialContents.agreesOption p.holder q.holder &&
    p.credentials.agrees Value.agrees q.credentials &&
    (encodeProofs p.proofs).agrees (encodeProofs q.proofs) &&
    (Value.object p.custom).agrees (.object q.custom)

end Presentation

end Attest
