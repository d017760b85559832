import Attest.Dict
import Attest.Key.Pair

/-!
Keys under the names of verification methods: the public keys that a verifier can look up, and the
secret keys of a signer.
-/

namespace Attest

/-- Finds the public key of a verification method, or tells why it cannot. -/
abbrev Resolver := (verificationMethod : String) → Except String PublicKey

/-- Public keys under the names of their verification methods. -/
structure KeyDirectory where
  keys : Dict PublicKey

namespace KeyDirectory

def empty : KeyDirectory := ⟨[]⟩

/-- Enters a key, in place of the one entered under that name before. -/
def insert (d : KeyDirectory) (verificationMethod : String) (key : PublicKey) : KeyDirectory :=
  ⟨Dict.insert d.keys verificationMethod key⟩

def size (d : KeyDirectory) : Nat := d.keys.length

def resolve (d : KeyDirectory) : Resolver := fun verificationMethod =>
  match d.keys.get? verificationMethod with
  | some key => .ok key
  | none => .error ("unknown verification method: " ++ verificationMethod)

end KeyDirectory

/-- Secret keys under the names of their verification methods. -/
structure Keyring where
  keys : Dict KeyPair

namespace Keyring

def empty : Keyring := ⟨[]⟩

/-- Enters a key, in place of the one entered under that name before. -/
def insert (r : Keyring) (verificationMethod : String) (key : KeyPair) : Keyring :=
  ⟨Dict.insert r.keys verificationMethod key⟩

/-- The public key of a verification method. -/
def publicKey? (r : Keyring) (verificationMethod : String) : Option PublicKey :=
  (r.keys.get? verificationMethod).map KeyPair.publicKey

/-- The public keys of all entries. -/
def directory (r : Keyring) : KeyDirectory :=
  r.keys.foldl (fun d entry => d.insert entry.1 entry.2.publicKey) .empty

end Keyring

end Attest
