import Attest.Json.Decode

/-!
The shape of a secured document: a JSON object whose member `proof` holds one proof or an array of
them. A null there counts as no proof.
-/

namespace Attest

open Json (Object Value)

/-- The name of the member that holds the proofs. -/
def proofName : String := "proof"

/-- Why bytes are not a document. -/
inductive DocumentError
  | json (cause : Json.Error)
  | notObject (kind : String)
  deriving DecidableEq

def DocumentError.message : DocumentError → String
  | .json cause => cause.message
  | .notObject kind => "expected a JSON object, got " ++ kind

/-- The members of the object that a text holds. -/
def parseDocument (text : Bytes) : Except DocumentError Object :=
  match Json.parse text with
  | .ok (.object members) => .ok members
  | .ok v => .error (.notObject v.kind)
  | .error cause => .error (.json cause)

/-- The proofs that stand under `proof`; a null counts as none. -/
def proofOf (document : Object) : Option Value :=
  match document.get? proofName with
  | some .null => none
  | proof => proof

/-- A document without its proofs. -/
def unsecured (document : Object) : Object := document.erase proofName

/-- The entries of the member `proof`. -/
def proofEntries : Value → List Value
  | .array entries => entries
  | v => [v]

/-- The member `proof` with one more proof at its end. -/
def appendProof (existing : Option Value) (proof : Value) : Value :=
  match existing with
  | none => proof
  | some (.array entries) => .array (entries ++ [proof])
  | some v => .array [v, proof]

end Attest
