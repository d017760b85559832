import Attest.Bytes

/-!
The SHA-2 construction over words of any width: a message is padded to whole blocks, each block is
spread into one word for every round, and the rounds stir the words into a state of eight words. A
member of the family is given by its words, its rotations and its round constants.
-/

namespace Attest

/-- The eight words of a hash state. -/
structure Sha2State (ω : Type) where
  a : ω
  b : ω
  c : ω
  d : ω
  e : ω
  f : ω
  g : ω
  h : ω

/-- A member of the SHA-2 family. -/
structure Sha2 (ω : Type) where
  /-- How many bytes a word has. -/
  wordBytes : Nat
  ofBytes : Bytes → ω
  toBytes : ω → Bytes
  /-- The mixing of the first working word. -/
  bigSigma₀ : ω → ω
  /-- The mixing of the fifth working word. -/
  bigSigma₁ : ω → ω
  /-- The mixing of the schedule word fifteen places back. -/
  smallSigma₀ : ω → ω
  /-- The mixing of the schedule word two places back. -/
  smallSigma₁ : ω → ω
  constants : List ω
  start : Sha2State ω

namespace Sha2

variable {ω : Type} [Inhabited ω] [Add ω] [AndOp ω] [XorOp ω] [Complement ω]

/-- The first `count` pieces of `size` bytes. -/
def pieces (size : Nat) : (count : Nat) → Bytes → List Bytes
  | 0, _ => []
  | count + 1, bytes => bytes.take size :: pieces size count (bytes.drop size)

/-- A message followed by a one bit, zeros, and its length in bits in the last two words of a
block. -/
def padded (s : Sha2 ω) (message : Bytes) : Bytes :=
  let block := 16 * s.wordBytes
  let used := message.length + 1 + 2 * s.wordBytes
  message ++ 0x80 :: List.replicate ((block - used % block) % block) 0 ++
    Bytes.ofNat (2 * s.wordBytes) (8 * message.length)

/-- The words of a block followed by those that the schedule derives from them. -/
@[specialize] def schedule (s : Sha2 ω) (block : Bytes) : Array ω :=
  let words := ((pieces s.wordBytes 16 block).map s.ofBytes).toArray
  (List.range (s.constants.length - 16)).foldl (fun w t =>
    let word (i : Nat) : ω := w.getD (t + i) default
    w.push (s.smallSigma₁ (word 14) + word 9 + s.smallSigma₀ (word 1) + word 0)) words

/-- One round with the sum of its constant and its schedule word. -/
@[specialize] def round (s : Sha2 ω) (x : Sha2State ω) (k w : ω) : Sha2State ω :=
  let choice := (x.e &&& x.f) ^^^ (~~~x.e &&& x.g)
  let majority := (x.a &&& x.b) ^^^ (x.a &&& x.c) ^^^ (x.b &&& x.c)
  let t₁ := x.h + s.bigSigma₁ x.e + choice + k + w
  let t₂ := s.bigSigma₀ x.a + majority
  ⟨t₁ + t₂, x.a, x.b, x.c, x.d + t₁, x.e, x.f, x.g⟩

/-- The state after a block. -/
@[specialize] def compress (s : Sha2 ω) (x : Sha2State ω) (block : Bytes) : Sha2State ω :=
  let y := (s.constants.zip (s.schedule block).toList).foldl
    (fun y (k, w) => s.round y k w) x
  ⟨x.a + y.a, x.b + y.b, x.c + y.c, x.d + y.d, x.e + y.e, x.f + y.f, x.g + y.g, x.h + y.h⟩

@[specialize] def digest (s : Sha2 ω) (message : Bytes) : Bytes :=
  let text := s.padded message
  let blocks := pieces (16 * s.wordBytes) (text.length / (16 * s.wordBytes)) text
  let x := blocks.foldl s.compress s.start
  [x.a, x.b, x.c, x.d, x.e, x.f, x.g, x.h].flatMap s.toBytes

theorem length_digest (s : Sha2 ω) (h : ∀ w, (s.toBytes w).length = s.wordBytes) (message : Bytes) :
    (s.digest message).length = 8 * s.wordBytes := by
  simp only [digest, List.flatMap_cons, List.flatMap_nil, List.length_append, h, List.length_nil]
  omega

end Sha2

end Attest
