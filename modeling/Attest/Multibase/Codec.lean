import Attest.Multibase.Positional
import Attest.Multibase.Packed
import Attest.Multibase.Emoji

/-!
Multibase texts: bytes written in one of many codes, with a first character that names the code.
Proof values and keys are written in base 58 with the alphabet that leaves out `0`, `O`, `I` and
`l`.
-/

namespace Attest

/-- The codes of multibase texts. -/
inductive Base
  | identity
  | base2
  | base8
  | base10
  | base16Lower
  | base16Upper
  | base32Lower
  | base32Upper
  | base32PadLower
  | base32PadUpper
  | base32HexLower
  | base32HexUpper
  | base32HexPadLower
  | base32HexPadUpper
  | base32Z
  | base36Lower
  | base36Upper
  | base45
  | base58Flickr
  | base58Btc
  | base64
  | base64Pad
  | base64Url
  | base64UrlPad
  | base256Emoji
  deriving DecidableEq

/-- How a code writes bytes. -/
inductive Coding
  /-- The text itself. -/
  | plain
  /-- One number for all bytes. -/
  | positional (alphabet : List Char)
  /-- A fixed number of bits for each letter, padded to blocks of a given length or not at all. -/
  | packed (alphabet : List Char) (width : Nat) (block : Option Nat)
  /-- Three letters for two bytes. -/
  | triples (alphabet : List Char)
  /-- One letter for each byte. -/
  | pictures

/-- Why a text is no multibase text. -/
inductive MultibaseError
  | unknownBase (code : Char)
  | malformed
  deriving DecidableEq

namespace MultibaseError

def message : MultibaseError → String
  | .unknownBase code => "Unknown base code: " ++ String.singleton code
  | .malformed => "Invalid base string"

end MultibaseError

namespace Base

def name : Base → String
  | .identity => "Identity"
  | .base2 => "Base2"
  | .base8 => "Base8"
  | .base10 => "Base10"
  | .base16Lower => "Base16Lower"
  | .base16Upper => "Base16Upper"
  | .base32Lower => "Base32Lower"
  | .base32Upper => "Base32Upper"
  | .base32PadLower => "Base32PadLower"
  | .base32PadUpper => "Base32PadUpper"
  | .base32HexLower => "Base32HexLower"
  | .base32HexUpper => "Base32HexUpper"
  | .base32HexPadLower => "Base32HexPadLower"
  | .base32HexPadUpper => "Base32HexPadUpper"
  | .base32Z => "Base32Z"
  | .base36Lower => "Base36Lower"
  | .base36Upper => "Base36Upper"
  | .base45 => "Base45"
  | .base58Flickr => "Base58Flickr"
  | .base58Btc => "Base58Btc"
  | .base64 => "Base64"
  | .base64Pad => "Base64Pad"
  | .base64Url => "Base64Url"
  | .base64UrlPad => "Base64UrlPad"
  | .base256Emoji => "Base256Emoji"

/-- The code that a first character names. -/
def ofCode? : Char → Option Base
  | '\x00' => some .identity
  | '0' => some .base2
  | '7' => some .base8
  | '9' => some .base10
  | 'f' => some .base16Lower
  | 'F' => some .base16Upper
  | 'b' => some .base32Lower
  | 'B' => some .base32Upper
  | 'c' => some .base32PadLower
  | 'C' => some .base32PadUpper
  | 'v' => some .base32HexLower
  | 'V' => some .base32HexUpper
  | 't' => some .base32HexPadLower
  | 'T' => some .base32HexPadUpper
  | 'h' => some .base32Z
  | 'k' => some .base36Lower
  | 'K' => some .base36Upper
  | 'R' => some .base45
  | 'Z' => some .base58Flickr
  | 'z' => some .base58Btc
  | 'm' => some .base64
  | 'M' => some .base64Pad
  | 'u' => some .base64Url
  | 'U' => some .base64UrlPad
  | '🚀' => some .base256Emoji
  | _ => none

def decimalDigits : List Char := "0123456789".toList

def smallLetters : List Char := "abcdefghijklmnopqrstuvwxyz".toList

def capitalLetters : List Char := "ABCDEFGHIJKLMNOPQRSTUVWXYZ".toList

/-- The letters of base 58, in the order of the code. -/
def base58Alphabet : List Char :=
  "123456789ABCDEFGHJKLMNPQRSTUVWXYZabcdefghijkmnopqrstuvwxyz".toList

/-- The letters of base 58 with small letters before capital ones. -/
def base58FlickrAlphabet : List Char :=
  "123456789abcdefghijkmnopqrstuvwxyzABCDEFGHJKLMNPQRSTUVWXYZ".toList

/-- The way in which a code writes bytes. -/
def coding : Base → Coding
  | .identity => .plain
  | .base2 => .packed ['0', '1'] 1 none
  | .base8 => .packed (decimalDigits.take 8) 3 none
  | .base10 => .positional decimalDigits
  | .base16Lower | .base16Upper => .packed (decimalDigits ++ smallLetters.take 6) 4 none
  | .base32Lower | .base32Upper => .packed (smallLetters ++ "234567".toList) 5 none
  | .base32PadLower | .base32PadUpper => .packed (smallLetters ++ "234567".toList) 5 (some 8)
  | .base32HexLower | .base32HexUpper => .packed (decimalDigits ++ smallLetters.take 22) 5 none
  | .base32HexPadLower | .base32HexPadUpper =>
    .packed (decimalDigits ++ smallLetters.take 22) 5 (some 8)
  | .base32Z => .packed "ybndrfg8ejkmcpqxot1uwisza345h769".toList 5 none
  | .base36Lower | .base36Upper => .positional (decimalDigits ++ smallLetters)
  | .base45 => .triples (decimalDigits ++ smallLetters ++ " $%*+-./:".toList)
  | .base58Flickr => .positional base58FlickrAlphabet
  | .base58Btc => .positional base58Alphabet
  | .base64 => .packed (capitalLetters ++ smallLetters ++ decimalDigits ++ ['+', '/']) 6 none
  | .base64Pad => .packed (capitalLetters ++ smallLetters ++ decimalDigits ++ ['+', '/']) 6 (some 4)
  | .base64Url => .packed (capitalLetters ++ smallLetters ++ decimalDigits ++ ['-', '_']) 6 none
  | .base64UrlPad =>
    .packed (capitalLetters ++ smallLetters ++ decimalDigits ++ ['-', '_']) 6 (some 4)
  | .base256Emoji => .pictures

/-- Whether a code takes capital ASCII letters for small ones. -/
def ignoresCase : Base → Bool
  | .base16Lower | .base16Upper | .base32Lower | .base32Upper | .base32PadLower
  | .base32PadUpper | .base32HexLower | .base32HexUpper | .base32HexPadLower
  | .base32HexPadUpper | .base36Lower | .base36Upper | .base45 => true
  | _ => false

/-- The places of letters in an alphabet. -/
def places? (alphabet text : List Char) : Option (List Nat) := text.mapM (alphabet.idxOf? ·)

/-- Groups of three letters as two bytes each; of two letters left over, one byte. -/
def ofTriples? : List Nat → Option Bytes
  | a :: b :: c :: rest =>
    let n := a + 45 * b + 45 * 45 * c
    if n < 65536 then (ofTriples? rest).map (Bytes.ofNat 2 n ++ ·) else none
  | [a, b] => some [(a + 45 * b).toUInt8]
  | [_] => none
  | [] => some []

/-- The bytes that a text stands for in a code, from after the character that names the code. -/
def decode? (base : Base) (text : List Char) : Option Bytes :=
  let text := if base.ignoresCase then text.map Char.toLower else text
  match base.coding with
  | .plain => some (Bytes.ofChars text)
  | .positional alphabet =>
    (places? alphabet text).map fun places =>
      (convertDigits alphabet.length 256 places).map Nat.toUInt8
  | .packed alphabet width none => do unpack? width (← places? alphabet text)
  | .packed alphabet width (some size) => do
    let blocks ← (blocksOf size text.length text).mapM fun block => do
      unpack? width (← places? alphabet (← unpadded? '=' size block))
    return blocks.flatten
  | .triples alphabet => do ofTriples? (← places? alphabet text)
  | .pictures => (places? pictures text).map (·.map Nat.toUInt8)

end Base

namespace Multibase

/-- The code and the bytes of a multibase text. -/
def decode (text : String) : Except MultibaseError (Base × Bytes) :=
  match text.toList with
  | [] => .error .malformed
  | code :: rest =>
    match Base.ofCode? code with
    | none => .error (.unknownBase code)
    | some base =>
      match base.decode? rest with
      | some bytes => .ok (base, bytes)
      | none => .error .malformed

/-- The letters of bytes in base 58. -/
def base58 (bytes : Bytes) : List Char :=
  (convertDigits 256 58 (bytes.map UInt8.toNat)).map (Base.base58Alphabet.getD · '1')

/-- Bytes as a multibase text in base 58. -/
def encode (bytes : Bytes) : String := String.ofList ('z' :: base58 bytes)

end Multibase

end Attest
