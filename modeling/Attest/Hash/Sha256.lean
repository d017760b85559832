import Attest.Hash.Sha2

/-!
Sha256: the SHA-2 construction over words of 32 bits.
-/

namespace Attest

namespace Sha256

/-- A word turned right by `n` places, `0 < n < 32`. -/
def rotate (x n : UInt32) : UInt32 := (x >>> n) ||| (x <<< (32 - n))

/-- The word whose bytes are given, the most significant first. -/
def ofBytes (b : Bytes) : UInt32 := b.foldl (fun n x => (n <<< 8) ||| x.toUInt32) 0

/-- The bytes of a word, the most significant first. -/
def toBytes (x : UInt32) : Bytes := Bytes.ofNat 4 x.toNat

/-- The round constants: the first 32 bits of the fractional parts of the cube roots of the first
64 primes. -/
def constants : List UInt32 := [
    0x428a2f98, 0x71374491, 0xb5c0fbcf, 0xe9b5dba5, 0x3956c25b, 0x59f111f1, 0x923f82a4, 0xab1c5ed5,
    0xd807aa98, 0x12835b01, 0x243185be, 0x550c7dc3, 0x72be5d74, 0x80deb1fe, 0x9bdc06a7, 0xc19bf174,
    0xe49b69c1, 0xefbe4786, 0x0fc19dc6, 0x240ca1cc, 0x2de92c6f, 0x4a7484aa, 0x5cb0a9dc, 0x76f988da,
    0x983e5152, 0xa831c66d, 0xb00327c8, 0xbf597fc7, 0xc6e00bf3, 0xd5a79147, 0x06ca6351, 0x14292967,
    0x27b70a85, 0x2e1b2138, 0x4d2c6dfc, 0x53380d13, 0x650a7354, 0x766a0abb, 0x81c2c92e, 0x92722c85,
    0xa2bfe8a1, 0xa81a664b, 0xc24b8b70, 0xc76c51a3, 0xd192e819, 0xd6990624, 0xf40e3585, 0x106aa070,
    0x19a4c116, 0x1e376c08, 0x2748774c, 0x34b0bcb5, 0x391c0cb3, 0x4ed8aa4a, 0x5b9cca4f, 0x682e6ff3,
    0x748f82ee, 0x78a5636f, 0x84c87814, 0x8cc70208, 0x90befffa, 0xa4506ceb, 0xbef9a3f7, 0xc67178f2]

/-- The state before the first block: the first 32 bits of the fractional parts of the square
roots of the first eight primes. -/
def start : Sha2State UInt32 := ⟨
    0x6a09e667, 0xbb67ae85, 0x3c6ef372, 0xa54ff53a, 0x510e527f, 0x9b05688c, 0x1f83d9ab, 0x5be0cd19⟩

/-- The words and rotations of Sha256. -/
def words : Sha2 UInt32 where
  wordBytes := 4
  ofBytes := ofBytes
  toBytes := toBytes
  bigSigma₀ x := rotate x 2 ^^^ rotate x 13 ^^^ rotate x 22
  bigSigma₁ x := rotate x 6 ^^^ rotate x 11 ^^^ rotate x 25
  smallSigma₀ x := rotate x 7 ^^^ rotate x 18 ^^^ (x >>> 3)
  smallSigma₁ x := rotate x 17 ^^^ rotate x 19 ^^^ (x >>> 10)
  constants := constants
  start := start

end Sha256

def sha256 (message : Bytes) : Bytes := Sha256.words.digest message

theorem length_sha256 (message : Bytes) : (sha256 message).length = 32 :=
  Sha256.words.length_digest (fun _ => Bytes.length_ofNat _ _) message

end Attest
