/-!
# Bytes

Encoded records, tags and digests are byte strings, kept as lists so that what a reader leaves over is
simply the rest of the list.
-/

set_option autoImplicit false

-- The bounds of bytes and numbers are powers of naturals: `2 ^ 64` means the power that `Nat` has itself, also
-- where Mathlib's power in a monoid is in sight.
attribute [instance (high), default_instance 20000] instPowNat

namespace Tagwire

/-- A string of bytes, the first one first. -/
abbrev Bytes : Type := List UInt8

namespace Bytes

/-- The UTF-8 bytes of a text. -/
def ofString (text : String) : Bytes := text.toUTF8.toList

/-- The big-endian bytes of the low `count` bytes of a number. -/
def bigEndian (n : Nat) : Nat → Bytes
  | 0 => []
  | count + 1 => UInt8.ofNat (n / 256 ^ count) :: bigEndian n count

/-- The little-endian bytes of the low `count` bytes of a number. -/
def littleEndian (n : Nat) : Nat → Bytes
  | 0 => []
  | count + 1 => UInt8.ofNat n :: littleEndian (n / 256) count

/-- The number that bytes write, most significant first. -/
def bigEndianValue (bytes : Bytes) : Nat := bytes.foldl (fun n b => 256 * n + b.toNat) 0

/-- The number that bytes write, least significant first. -/
def littleEndianValue : Bytes → Nat
  | [] => 0
  | b :: rest => b.toNat + 256 * littleEndianValue rest

end Bytes

end Tagwire
