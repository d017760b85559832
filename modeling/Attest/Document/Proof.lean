import Attest.Integrity.Secured
import Attest.Json.Record

/-!
The proofs of a document as objects with a type. The member `proof` holds nothing, one proof or an
array of them; written back, exactly one proof stands alone and any other number in an array.
-/

namespace Attest

open Json (Draft Object Value)

/-- The text of the member `type`. -/
def typeText? (members : Object) : Option String := (members.get? "type").bind Value.string?

/-- A proof: an object whose member `type` is a text. -/
structure Proof where
  members : Object
  typed : (typeText? members).isSome = true
  deriving DecidableEq

/-- Why a member `proof` does not hold proofs. -/
inductive ProofDecodeError
  | json (cause : Json.Error)
  | invalidShape (kind : String)
  | entryNotObject (index : Nat) (kind : String)
  | missingType (index : Nat)
  deriving DecidableEq

def ProofDecodeError.message : ProofDecodeError → String
  | .json cause => "signed document is not valid JSON: " ++ cause.message
  | .invalidShape kind => "proof field must be an object or an array, got " ++ kind
  | .entryNotObject index kind =>
    "proof entry " ++ toString index ++ " must be an object, got " ++ kind
  | .missingType index => "proof entry " ++ toString index ++ " has no string \"type\""

namespace Proof

/-- The proof with these members, which stands at a place of an array. -/
def ofEntry (index : Nat) (members : Object) : Except ProofDecodeError Proof :=
  if h : (typeText? members).isSome = true then .ok ⟨members, h⟩ else .error (.missingType index)

/-- The proof with these members. -/
def ofMembers (members : Object) : Except ProofDecodeError Proof := ofEntry 0 members

def toJson (p : Proof) : Value := .object p.members

def type (p : Proof) : String := (typeText? p.members).get p.typed

def get? (p : Proof) (name : String) : Option Value := p.members.get? name

/-- The text of a member, if it is one. -/
def text? (p : Proof) (name : String) : Option String := (p.get? name).bind Value.string?

/-- The time in a member, if it is one. -/
def time? (p : Proof) (name : String) : Option Timestamp :=
  (p.text? name).bind fun s => (Timestamp.parseLenient s).toOption

/-- Equality of proofs, where the sign of a floating-point zero does not count. -/
def agrees (p q : Proof) : Bool := p.toJson.agrees q.toJson

/-- The proof at a place of a document. -/
def ofDraft (budget : Nat) (d : Draft) : Except Json.Error Proof := do
  (ofMembers (← d.members budget)).mapError fun e => .refused e.message

end Proof

/-- The proofs of the entries of an array whose first entry has the given index. -/
def decodeEntries : (index : Nat) → List Value → Except ProofDecodeError (List Proof)
  | _, [] => .ok []
  | index, .object members :: entries => do
    let first ← Proof.ofEntry index members
    let others ← decodeEntries (index + 1) entries
    return first :: others
  | index, v :: _ => .error (.entryNotObject index v.kind)

/-- The proofs that a member `proof` holds. -/
def decodeProofs : Option Value → Except ProofDecodeError (List Proof)
  | none | some .null => .ok []
  | some (.object members) => do return [← Proof.ofEntry 0 members]
  | some (.array entries) => decodeEntries 0 entries
  | some v => .error (.invalidShape v.kind)

/-- The member `proof` that holds the given proofs. -/
def encodeProofs : List Proof → Value
  | [p] => p.toJson
  | ps => .array (ps.map Proof.toJson)

end Attest
