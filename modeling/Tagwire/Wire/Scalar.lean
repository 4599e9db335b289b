import Tagwire.Schema.Type
import Tagwire.Text.Utf8
import Tagwire.Wire.Varint

/-!
# Scalars on the wire

A field on the wire is a key, which is its number together with how its value is delimited, and then the
value.  Each scalar kind has one form: integers are variable-length or have a fixed width, a signed
variable-length integer is its two's complement in sixty-four bits unless its kind alternates the signs,
and texts and byte strings stand behind their length.  A reader keeps the low bits of an integer that is
too wide for its kind.
-/

set_option autoImplicit false

namespace Tagwire

/-- How the value of a field is delimited: by its own form, by a width, by a length, or by markers of a
group. -/
inductive WireType where
  | varint
  | fixed64
  | lengthDelimited
  | startGroup
  | endGroup
  | fixed32
deriving DecidableEq, Repr, Inhabited

namespace WireType

/-- The number that stands for the delimitation in a key. -/
def code : WireType → Nat
  | varint => 0
  | fixed64 => 1
  | lengthDelimited => 2
  | startGroup => 3
  | endGroup => 4
  | fixed32 => 5

/-- The delimitation that a number stands for. -/
def ofCode? : Nat → Option WireType
  | 0 => some varint
  | 1 => some fixed64
  | 2 => some lengthDelimited
  | 3 => some startGroup
  | 4 => some endGroup
  | 5 => some fixed32
  | _ => none

end WireType

/-- What introduces a field: its number, and how its value is delimited. -/
structure WireKey where
  number : Nat
  type : WireType
deriving DecidableEq, Repr

namespace WireKey

/-- The bytes of a key. -/
def encode (key : WireKey) : Bytes := Varint.encode (8 * key.number + key.type.code)

/-- Reads a key, whose number is from 1 up to below `2 ^ 29`. -/
def decode? (bytes : Bytes) : Option (WireKey × Bytes) := do
  let (n, rest) ← Varint.decode? bytes
  if n < 2 ^ 32 ∧ 8 ≤ n then
    let type ← WireType.ofCode? (n % 8)
    return (⟨n / 8, type⟩, rest)
  else none

end WireKey

/-- The two's complement of an integer in sixty-four bits. -/
def twosComplement (n : Int) : Nat := (n % 2 ^ 64).toNat

/-- The integer whose two's complement is the low bits of a natural. -/
def signedOfBits (width n : Nat) : Int := Int.bmod n (2 ^ width)

/-- Integers as naturals by alternating signs: `0`, `-1`, `1`, `-2` and so on. -/
def zigzag (n : Int) : Nat := if 0 ≤ n then 2 * n.toNat else 2 * (-n).toNat - 1

/-- The integer that a natural stands for by alternating signs. -/
def unzigzag (n : Nat) : Int := if n % 2 = 0 then n / 2 else -((n / 2 : Nat) + 1 : Int)

namespace Scalar

/-- How values of a kind are delimited. -/
def wireType : Scalar → WireType
  | double | fixed64 | sfixed64 => .fixed64
  | float | fixed32 | sfixed32 => .fixed32
  | string | bytes => .lengthDelimited
  | _ => .varint

/-- The bytes of a value of a kind, without its key; a value of no such kind has none. -/
def encode (kind : Scalar) (value : Value) : Bytes :=
  match kind, value with
  | double, .double x => Bytes.littleEndian x.bits.toNat 8
  | float, .float x => Bytes.littleEndian x.bits.toNat 4
  | sint32, .int n | sint64, .int n => Varint.encode (zigzag n)
  | fixed32, .int n | sfixed32, .int n => Bytes.littleEndian (twosComplement n) 4
  | fixed64, .int n | sfixed64, .int n => Bytes.littleEndian (twosComplement n) 8
  | int32, .int n | int64, .int n | uint32, .int n | uint64, .int n => Varint.encode (twosComplement n)
  | boolean, .bool b => Varint.encode (if b then 1 else 0)
  | string, .string s => lengthPrefixed (Bytes.ofString s)
  | bytes, .bytes b => lengthPrefixed b
  | _, _ => []

/-- The value of a kind with a fixed width from its bytes as a natural. -/
def ofFixed (kind : Scalar) (n : Nat) : Value :=
  match kind with
  | double => .double (.ofNatBits n)
  | float => .float (.ofNatBits n)
  | sfixed32 => .int (signedOfBits 32 n)
  | sfixed64 => .int (signedOfBits 64 n)
  | _ => .int n

/-- The value of a variable-length kind from its natural. -/
def ofVarint (kind : Scalar) (n : Nat) : Value :=
  match kind with
  | int32 => .int (signedOfBits 32 n)
  | int64 => .int (signedOfBits 64 n)
  | uint32 => .int (n % 2 ^ 32 : Nat)
  | sint32 => .int (unzigzag (n % 2 ^ 32))
  | sint64 => .int (unzigzag n)
  | boolean => .bool (n != 0)
  | _ => .int n

/-- Reads a value of a kind, without its key. -/
def decode? (kind : Scalar) (bytes : Bytes) : Option (Value × Bytes) :=
  match kind.wireType with
  | .fixed64 => (splitBytes? 8 bytes).map fun (b, rest) => (kind.ofFixed (Bytes.littleEndianValue b), rest)
  | .fixed32 => (splitBytes? 4 bytes).map fun (b, rest) => (kind.ofFixed (Bytes.littleEndianValue b), rest)
  | .lengthDelimited => do
    let (b, rest) ← readLengthPrefixed? bytes
    if kind = .string then
      let text ← Utf8.decode? b
      return (.string text, rest)
    else return (.bytes b, rest)
  | _ => (Varint.decode? bytes).map fun (n, rest) => (kind.ofVarint n, rest)

end Scalar

/-- The scalar kind that a key of a map is written as. -/
def MapKey.toValue : MapKey → Value
  | .bool b => .bool b
  | .int n => .int n
  | .string s => .string s

/-- The key of a map that a scalar value is. -/
def MapKey.ofValue? : Value → Option MapKey
  | .bool b => some (.bool b)
  | .int n => some (.int n)
  | .string s => some (.string s)
  | _ => none

namespace ValueType

/-- The scalar kind with the same wire form, for all types but messages. -/
def scalar? : ValueType → Option Scalar
  | scalar kind => some kind
  | enum _ => some .int32
  | message _ => none

end ValueType

end Tagwire
