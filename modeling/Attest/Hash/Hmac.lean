import Attest.Hash.Sha256

/-!
Keyed hashing with SHA-256 (HMAC).
-/

namespace Attest

/-- The bytes in one block of SHA-256. -/
def hmacBlock : Nat := 64

/-- A key as one block: a long key is hashed first, a short one is filled with zeros. -/
def hmacKey (key : Bytes) : Bytes :=
  let short := if hmacBlock < key.length then sha256 key else key
  short ++ List.replicate (hmacBlock - short.length) 0

/-- The HMAC-SHA-256 tag of a message under a key. -/
def hmacSha256 (key message : Bytes) : Bytes :=
  let block := hmacKey key
  sha256 (block.map (· ^^^ 0x5c) ++ sha256 (block.map (· ^^^ 0x36) ++ message))

end Attest
