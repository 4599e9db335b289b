import Tagwire.Bytes

/-!
# Variable-length integers

A natural is written seven bits at a time, the low ones first, and every byte but the last has its top
bit set.  Sixty-four bits take at most ten bytes, of which the tenth has one bit left to give.
-/

set_option autoImplicit false

namespace Tagwire

namespace Varint

/-- The bytes of a natural, seven bits in each and the lowest first; the top bit is set in all but the last. -/
def encode (n : Nat) : Bytes :=
  if n < 128 then [UInt8.ofNat n] else UInt8.ofNat (n % 128 + 128) :: encode (n / 128)
termination_by n
decreasing_by omega

/-- Reads an integer of at most `count` bytes. -/
def read? : Nat → Bytes → Option (Nat × Bytes)
  | 0, _ => none
  | _ + 1, [] => none
  | count + 1, b :: rest =>
    if b.toNat < 128 then some (b.toNat, rest)
    else (read? count rest).map fun (high, rest) => (b.toNat - 128 + 128 * high, rest)

/-- Reads an integer of at most 10 bytes that is below `2 ^ 64`. -/
def decode? (bytes : Bytes) : Option (Nat × Bytes) :=
  (read? 10 bytes).bind fun (n, rest) => if n < 2 ^ 64 then some (n, rest) else none

end Varint

/-- Bytes behind their own length, as an integer of variable length. -/
def lengthPrefixed (body : Bytes) : Bytes := Varint.encode body.length ++ body

/-- The first `count` bytes of a string and what follows them, if there are as many. -/
def splitBytes? (count : Nat) (bytes : Bytes) : Option (Bytes × Bytes) :=
  if count ≤ bytes.length then some (bytes.take count, bytes.drop count) else none

/-- Reads bytes behind their own length. -/
def readLengthPrefixed? (bytes : Bytes) : Option (Bytes × Bytes) :=
  (Varint.decode? bytes).bind fun (length, rest) => splitBytes? length rest

end Tagwire
