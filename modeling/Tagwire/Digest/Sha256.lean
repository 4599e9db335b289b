import Tagwire.Bytes

/-!
# SHA-256

The digest that fingerprints a schema document.  A message is padded to whole blocks of sixty-four bytes,
each block is expanded to sixty-four words, and the eight words of the state are folded over them; the
rounds are folds over lists, so the recursion is the one of the data.
-/

set_option autoImplicit false

namespace Tagwire

namespace Sha256

/-- The round constants: the fractional bits of the cube roots of the first sixty-four primes. -/
def constants : List UInt32 :=
  [
   0x428a2f98, 0x71374491, 0xb5c0fbcf, 0xe9b5dba5, 0x3956c25b, 0x59f111f1, 0x923f82a4, 0xab1c5ed5,
   0xd807aa98, 0x12835b01, 0x243185be, 0x550c7dc3, 0x72be5d74, 0x80deb1fe, 0x9bdc06a7, 0xc19bf174,
   0xe49b69c1, 0xefbe4786, 0x0fc19dc6, 0x240ca1cc, 0x2de92c6f, 0x4a7484aa, 0x5cb0a9dc, 0x76f988da,
   0x983e5152, 0xa831c66d, 0xb00327c8, 0xbf597fc7, 0xc6e00bf3, 0xd5a79147, 0x06ca6351, 0x14292967,
   0x27b70a85, 0x2e1b2138, 0x4d2c6dfc, 0x53380d13, 0x650a7354, 0x766a0abb, 0x81c2c92e, 0x92722c85,
   0xa2bfe8a1, 0xa81a664b, 0xc24b8b70, 0xc76c51a3, 0xd192e819, 0xd6990624, 0xf40e3585, 0x106aa070,
   0x19a4c116, 0x1e376c08, 0x2748774c, 0x34b0bcb5, 0x391c0cb3, 0x4ed8aa4a, 0x5b9cca4f, 0x682e6ff3,
   0x748f82ee, 0x78a5636f, 0x84c87814, 0x8cc70208, 0x90befffa, 0xa4506ceb, 0xbef9a3f7, 0xc67178f2
  ]

/-- The eight words of the state. -/
structure State where
  a : UInt32
  b : UInt32
  c : UInt32
  d : UInt32
  e : UInt32
  f : UInt32
  g : UInt32
  h : UInt32
deriving DecidableEq, Repr

/-- The first state: the fractional bits of the square roots of the first eight primes. -/
def initial : State :=
  ⟨0x6a09e667, 0xbb67ae85, 0x3c6ef372, 0xa54ff53a,
   0x510e527f, 0x9b05688c, 0x1f83d9ab, 0x5be0cd19⟩

/-- A word turned to the right. -/
def rotateRight (x : UInt32) (n : UInt32) : UInt32 := (x >>> n) ||| (x <<< (32 - n))

/-- The word added for a word fifteen places back. -/
def smallSigma0 (x : UInt32) : UInt32 := rotateRight x 7 ^^^ rotateRight x 18 ^^^ (x >>> 3)

/-- The word added for a word two places back. -/
def smallSigma1 (x : UInt32) : UInt32 := rotateRight x 17 ^^^ rotateRight x 19 ^^^ (x >>> 10)

/-- The turn of the first word of the state. -/
def bigSigma0 (x : UInt32) : UInt32 := rotateRight x 2 ^^^ rotateRight x 13 ^^^ rotateRight x 22

/-- The turn of the fifth word of the state. -/
def bigSigma1 (x : UInt32) : UInt32 := rotateRight x 6 ^^^ rotateRight x 11 ^^^ rotateRight x 25

/-- The next word of a schedule, given the words so far with the latest one first. -/
def nextWord (latestFirst : List UInt32) : UInt32 :=
  let word (back : Nat) : UInt32 := (latestFirst[back - 1]?).getD 0
  smallSigma1 (word 2) + word 7 + smallSigma0 (word 15) + word 16

/-- `count` further words of a schedule. -/
def extend (latestFirst : List UInt32) : Nat → List UInt32
  | 0 => latestFirst
  | count + 1 => extend (nextWord latestFirst :: latestFirst) count

/-- The words of bytes, each of four. -/
def words : Bytes → List UInt32
  | b0 :: b1 :: b2 :: b3 :: rest =>
    ((b0.toUInt32 <<< 24) ||| (b1.toUInt32 <<< 16) ||| (b2.toUInt32 <<< 8) ||| b3.toUInt32) :: words rest
  | _ => []

/-- One round, with its constant and its word of the schedule. -/
def round (s : State) (input : UInt32 × UInt32) : State :=
  let choice := (s.e &&& s.f) ^^^ ((~~~ s.e) &&& s.g)
  let majority := (s.a &&& s.b) ^^^ (s.a &&& s.c) ^^^ (s.b &&& s.c)
  let first := s.h + bigSigma1 s.e + choice + input.1 + input.2
  let second := bigSigma0 s.a + majority
  ⟨first + second, s.a, s.b, s.c, s.d + first, s.e, s.f, s.g⟩

/-- Takes one block of sixteen words into the state. -/
def compress (s : State) (block : List UInt32) : State :=
  let schedule := (extend block.reverse 48).reverse
  let t := (constants.zip schedule).foldl round s
  ⟨s.a + t.a, s.b + t.b, s.c + t.c, s.d + t.d, s.e + t.e, s.f + t.f, s.g + t.g, s.h + t.h⟩

/-- A message followed by a one bit, zeros up to eight bytes short of a whole block, and its length in
bits. -/
def padded (message : Bytes) : Bytes :=
  let zeros := (119 - message.length % 64) % 64
  message ++ 0x80 :: List.replicate zeros 0 ++ Bytes.bigEndian (8 * message.length) 8

/-- Takes `count` blocks of words into the state. -/
def absorb (s : State) (message : List UInt32) : Nat → State
  | 0 => s
  | count + 1 => absorb (compress s (message.take 16)) (message.drop 16) count

/-- The bytes of the state. -/
def State.toBytes (s : State) : Bytes :=
  [s.a, s.b, s.c, s.d, s.e, s.f, s.g, s.h].flatMap fun word => Bytes.bigEndian word.toNat 4

/-- The digest of a message. -/
def digest (message : Bytes) : Bytes :=
  let input := words (padded message)
  (absorb initial input (input.length / 16)).toBytes

end Sha256

end Tagwire
