import Attest.Json.Print
import Attest.Json.Record

/-!
What a proof is asked to be, or what the proofs of a document are asked to be. An empty domain or
challenge means that none is asked for. A verifier reads only the purpose, the type, the domain and
the challenge; everything else it takes from the proof.
-/

namespace Attest

open Json (Draft Error ItemsLeft readOnce required)

/-- The options for making or checking a proof. -/
structure ProofOptions where
  purpose : String
  verificationMethod : String
  proofType : String
  suite : String
  domain : String
  challenge : String
  created : Option Timestamp
  expires : Option Timestamp
  deriving DecidableEq

namespace ProofOptions

/-- The type of every proof that is made or checked here. -/
def dataIntegrityProof : String := "DataIntegrityProof"

/-- Whether the options ask for a proof of that type. -/
def isDataIntegrity (o : ProofOptions) : Bool := o.proofType == dataIntegrityProof

/-- The options as a document. The two times are left out if they are not set. -/
def toJson (o : ProofOptions) : Json.Value :=
  let time (name : String) (t : Option Timestamp) : List (String × Json.Value) :=
    t.toList.map fun t => (name, .string t.text)
  .object ([("purpose", .string o.purpose), ("verificationMethod", .string o.verificationMethod),
    ("proofType", .string o.proofType), ("cryptosuite", .string o.suite),
    ("domain", .string o.domain), ("challenge", .string o.challenge)] ++
    time "created" o.created ++ time "expires" o.expires)

/-- The members of options that have been read so far. -/
structure Reading where
  purpose : Option String := none
  verificationMethod : Option String := none
  proofType : Option String := none
  suite : Option String := none
  domain : Option String := none
  challenge : Option String := none
  created : Option (Option Timestamp) := none
  expires : Option (Option Timestamp) := none

/-- Reads a member; one without a meaning is passed over. -/
def Reading.read (p : Reading) (name : String) (d : Draft) : Except Error Reading := do
  match name with
  | "purpose" => return { p with purpose := ← readOnce name p.purpose d.text }
  | "verificationMethod" =>
    return { p with verificationMethod := ← readOnce name p.verificationMethod d.text }
  | "proofType" => return { p with proofType := ← readOnce name p.proofType d.text }
  | "cryptosuite" => return { p with suite := ← readOnce name p.suite d.text }
  | "domain" => return { p with domain := ← readOnce name p.domain d.text }
  | "challenge" => return { p with challenge := ← readOnce name p.challenge d.text }
  | "created" => return { p with created := ← readOnce name p.created (d.optional Draft.time) }
  | "expires" => return { p with expires := ← readOnce name p.expires (d.optional Draft.time) }
  | _ => do d.skip; return p

/-- The options, if all members that must be there are. -/
def Reading.finish (p : Reading) : Except Error ProofOptions := do
  let purpose ← required "purpose" p.purpose
  let verificationMethod ← required "verificationMethod" p.verificationMethod
  let proofType ← required "proofType" p.proofType
  let suite ← required "cryptosuite" p.suite
  return {
    purpose, verificationMethod, proofType, suite
    domain := p.domain.getD ""
    challenge := p.challenge.getD ""
    created := p.created.join
    expires := p.expires.join }

/-- The options from the bare list of their members' values. -/
def ofItems (left : ItemsLeft) : Except Error ProofOptions := do
  let wanted := "struct ProofOptions with 8 elements"
  let (purpose, left) ← left.nextRequired 0 wanted Draft.text
  let (verificationMethod, left) ← left.nextRequired 1 wanted Draft.text
  let (proofType, left) ← left.nextRequired 2 wanted Draft.text
  let (suite, left) ← left.nextRequired 3 wanted Draft.text
  let (domain, left) ← left.next Draft.text
  let (challenge, left) ← left.next Draft.text
  let (created, left) ← left.next (Draft.optional Draft.time)
  let (expires, left) ← left.next (Draft.optional Draft.time)
  left.close
  return {
    purpose, verificationMethod, proofType, suite
    domain := domain.getD ""
    challenge := challenge.getD ""
    created := created.join
    expires := expires.join }

/-- The options at a place of a document. -/
def ofDraft : Draft → Except Error ProofOptions
  | .object members ending => do
    (← Draft.foldMembers Reading.read members ending {}).finish
  | .array items ending => ofItems ⟨items, ending⟩
  | d => d.unwanted "struct ProofOptions"

end ProofOptions

end Attest
