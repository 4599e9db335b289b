import Tagwire.Bytes

/-!
# The block cipher

A block of sixteen bytes is four columns of four bytes.  A round substitutes every byte, moves the rows,
mixes the columns and adds a round key; each of these steps is one function with its inverse beside it,
and deciphering runs the inverses in the opposite order.  Mixing the columns is the multiplication with
`3 z³ + z² + z + 2` modulo `z⁴ + 1`, whose fourth power is one, so that mixing three times more undoes it.
-/

set_option autoImplicit false

namespace Tagwire

/-- A column of four bytes. -/
structure Column where
  b0 : UInt8
  b1 : UInt8
  b2 : UInt8
  b3 : UInt8
deriving DecidableEq, Repr, Inhabited

/-- A block of four columns. -/
structure Block where
  c0 : Column
  c1 : Column
  c2 : Column
  c3 : Column
deriving DecidableEq, Repr, Inhabited

/-! ## Bytes -/

/-- The substitution of a byte, row by row of its upper digit. -/
def substitutionTable : Array UInt8 :=
  #[
    0x63, 0x7c, 0x77, 0x7b, 0xf2, 0x6b, 0x6f, 0xc5, 0x30, 0x01, 0x67, 0x2b, 0xfe, 0xd7, 0xab, 0x76,
    0xca, 0x82, 0xc9, 0x7d, 0xfa, 0x59, 0x47, 0xf0, 0xad, 0xd4, 0xa2, 0xaf, 0x9c, 0xa4, 0x72, 0xc0,
    0xb7, 0xfd, 0x93, 0x26, 0x36, 0x3f, 0xf7, 0xcc, 0x34, 0xa5, 0xe5, 0xf1, 0x71, 0xd8, 0x31, 0x15,
    0x04, 0xc7, 0x23, 0xc3, 0x18, 0x96, 0x05, 0x9a, 0x07, 0x12, 0x80, 0xe2, 0xeb, 0x27, 0xb2, 0x75,
    0x09, 0x83, 0x2c, 0x1a, 0x1b, 0x6e, 0x5a, 0xa0, 0x52, 0x3b, 0xd6, 0xb3, 0x29, 0xe3, 0x2f, 0x84,
    0x53, 0xd1, 0x00, 0xed, 0x20, 0xfc, 0xb1, 0x5b, 0x6a, 0xcb, 0xbe, 0x39, 0x4a, 0x4c, 0x58, 0xcf,
    0xd0, 0xef, 0xaa, 0xfb, 0x43, 0x4d, 0x33, 0x85, 0x45, 0xf9, 0x02, 0x7f, 0x50, 0x3c, 0x9f, 0xa8,
    0x51, 0xa3, 0x40, 0x8f, 0x92, 0x9d, 0x38, 0xf5, 0xbc, 0xb6, 0xda, 0x21, 0x10, 0xff, 0xf3, 0xd2,
    0xcd, 0x0c, 0x13, 0xec, 0x5f, 0x97, 0x44, 0x17, 0xc4, 0xa7, 0x7e, 0x3d, 0x64, 0x5d, 0x19, 0x73,
    0x60, 0x81, 0x4f, 0xdc, 0x22, 0x2a, 0x90, 0x88, 0x46, 0xee, 0xb8, 0x14, 0xde, 0x5e, 0x0b, 0xdb,
    0xe0, 0x32, 0x3a, 0x0a, 0x49, 0x06, 0x24, 0x5c, 0xc2, 0xd3, 0xac, 0x62, 0x91, 0x95, 0xe4, 0x79,
    0xe7, 0xc8, 0x37, 0x6d, 0x8d, 0xd5, 0x4e, 0xa9, 0x6c, 0x56, 0xf4, 0xea, 0x65, 0x7a, 0xae, 0x08,
    0xba, 0x78, 0x25, 0x2e, 0x1c, 0xa6, 0xb4, 0xc6, 0xe8, 0xdd, 0x74, 0x1f, 0x4b, 0xbd, 0x8b, 0x8a,
    0x70, 0x3e, 0xb5, 0x66, 0x48, 0x03, 0xf6, 0x0e, 0x61, 0x35, 0x57, 0xb9, 0x86, 0xc1, 0x1d, 0x9e,
    0xe1, 0xf8, 0x98, 0x11, 0x69, 0xd9, 0x8e, 0x94, 0x9b, 0x1e, 0x87, 0xe9, 0xce, 0x55, 0x28, 0xdf,
    0x8c, 0xa1, 0x89, 0x0d, 0xbf, 0xe6, 0x42, 0x68, 0x41, 0x99, 0x2d, 0x0f, 0xb0, 0x54, 0xbb, 0x16
  ]

/-- The inverse substitution of a byte, row by row of its upper digit. -/
def inverseSubstitutionTable : Array UInt8 :=
  #[
    0x52, 0x09, 0x6a, 0xd5, 0x30, 0x36, 0xa5, 0x38, 0xbf, 0x40, 0xa3, 0x9e, 0x81, 0xf3, 0xd7, 0xfb,
    0x7c, 0xe3, 0x39, 0x82, 0x9b, 0x2f, 0xff, 0x87, 0x34, 0x8e, 0x43, 0x44, 0xc4, 0xde, 0xe9, 0xcb,
    0x54, 0x7b, 0x94, 0x32, 0xa6, 0xc2, 0x23, 0x3d, 0xee, 0x4c, 0x95, 0x0b, 0x42, 0xfa, 0xc3, 0x4e,
    0x08, 0x2e, 0xa1, 0x66, 0x28, 0xd9, 0x24, 0xb2, 0x76, 0x5b, 0xa2, 0x49, 0x6d, 0x8b, 0xd1, 0x25,
    0x72, 0xf8, 0xf6, 0x64, 0x86, 0x68, 0x98, 0x16, 0xd4, 0xa4, 0x5c, 0xcc, 0x5d, 0x65, 0xb6, 0x92,
    0x6c, 0x70, 0x48, 0x50, 0xfd, 0xed, 0xb9, 0xda, 0x5e, 0x15, 0x46, 0x57, 0xa7, 0x8d, 0x9d, 0x84,
    0x90, 0xd8, 0xab, 0x00, 0x8c, 0xbc, 0xd3, 0x0a, 0xf7, 0xe4, 0x58, 0x05, 0xb8, 0xb3, 0x45, 0x06,
    0xd0, 0x2c, 0x1e, 0x8f, 0xca, 0x3f, 0x0f, 0x02, 0xc1, 0xaf, 0xbd, 0x03, 0x01, 0x13, 0x8a, 0x6b,
    0x3a, 0x91, 0x11, 0x41, 0x4f, 0x67, 0xdc, 0xea, 0x97, 0xf2, 0xcf, 0xce, 0xf0, 0xb4, 0xe6, 0x73,
    0x96, 0xac, 0x74, 0x22, 0xe7, 0xad, 0x35, 0x85, 0xe2, 0xf9, 0x37, 0xe8, 0x1c, 0x75, 0xdf, 0x6e,
    0x47, 0xf1, 0x1a, 0x71, 0x1d, 0x29, 0xc5, 0x89, 0x6f, 0xb7, 0x62, 0x0e, 0xaa, 0x18, 0xbe, 0x1b,
    0xfc, 0x56, 0x3e, 0x4b, 0xc6, 0xd2, 0x79, 0x20, 0x9a, 0xdb, 0xc0, 0xfe, 0x78, 0xcd, 0x5a, 0xf4,
    0x1f, 0xdd, 0xa8, 0x33, 0x88, 0x07, 0xc7, 0x31, 0xb1, 0x12, 0x10, 0x59, 0x27, 0x80, 0xec, 0x5f,
    0x60, 0x51, 0x7f, 0xa9, 0x19, 0xb5, 0x4a, 0x0d, 0x2d, 0xe5, 0x7a, 0x9f, 0x93, 0xc9, 0x9c, 0xef,
    0xa0, 0xe0, 0x3b, 0x4d, 0xae, 0x2a, 0xf5, 0xb0, 0xc8, 0xeb, 0xbb, 0x3c, 0x83, 0x53, 0x99, 0x61,
    0x17, 0x2b, 0x04, 0x7e, 0xba, 0x77, 0xd6, 0x26, 0xe1, 0x69, 0x14, 0x63, 0x55, 0x21, 0x0c, 0x7d
  ]

/-- The substitute of a byte. -/
def substitute (b : UInt8) : UInt8 := substitutionTable.getD b.toNat 0

/-- The byte with a given substitute. -/
def unsubstitute (b : UInt8) : UInt8 := inverseSubstitutionTable.getD b.toNat 0

/-- Twice a byte in the field of the cipher, reduced by `z⁸ + z⁴ + z³ + z + 1`. -/
def double (b : UInt8) : UInt8 := (b <<< 1) ^^^ (if b < 0x80 then 0 else 0x1b)

namespace Column

/-- The sum of two columns. -/
def add (x y : Column) : Column := ⟨x.b0 ^^^ y.b0, x.b1 ^^^ y.b1, x.b2 ^^^ y.b2, x.b3 ^^^ y.b3⟩

/-- A function on every byte. -/
def map (f : UInt8 → UInt8) (x : Column) : Column := ⟨f x.b0, f x.b1, f x.b2, f x.b3⟩

/-- The bytes moved up by one place. -/
def rotate (x : Column) : Column := ⟨x.b1, x.b2, x.b3, x.b0⟩

/-- The product with the mixing polynomial. -/
def mix (x : Column) : Column :=
  let total := x.b0 ^^^ x.b1 ^^^ x.b2 ^^^ x.b3
  ⟨x.b0 ^^^ total ^^^ double (x.b0 ^^^ x.b1), x.b1 ^^^ total ^^^ double (x.b1 ^^^ x.b2),
   x.b2 ^^^ total ^^^ double (x.b2 ^^^ x.b3), x.b3 ^^^ total ^^^ double (x.b3 ^^^ x.b0)⟩

/-- Undoes `mix`, whose fourth power is the identity. -/
def unmix (x : Column) : Column := x.mix.mix.mix

/-- The bytes in order. -/
def toBytes (x : Column) : Bytes := [x.b0, x.b1, x.b2, x.b3]

end Column

namespace Block

/-- The sum of two blocks. -/
def add (x y : Block) : Block := ⟨x.c0.add y.c0, x.c1.add y.c1, x.c2.add y.c2, x.c3.add y.c3⟩

/-- A function on every column. -/
def map (f : Column → Column) (x : Block) : Block := ⟨f x.c0, f x.c1, f x.c2, f x.c3⟩

/-- Substitutes every byte. -/
def substitute (x : Block) : Block := x.map (Column.map Tagwire.substitute)

/-- Undoes `substitute`. -/
def unsubstitute (x : Block) : Block := x.map (Column.map Tagwire.unsubstitute)

/-- Moves row `r` by `r` columns to the left. -/
def shiftRows (x : Block) : Block :=
  ⟨⟨x.c0.b0, x.c1.b1, x.c2.b2, x.c3.b3⟩, ⟨x.c1.b0, x.c2.b1, x.c3.b2, x.c0.b3⟩,
   ⟨x.c2.b0, x.c3.b1, x.c0.b2, x.c1.b3⟩, ⟨x.c3.b0, x.c0.b1, x.c1.b2, x.c2.b3⟩⟩

/-- Undoes `shiftRows`. -/
def unshiftRows (x : Block) : Block :=
  ⟨⟨x.c0.b0, x.c3.b1, x.c2.b2, x.c1.b3⟩, ⟨x.c1.b0, x.c0.b1, x.c3.b2, x.c2.b3⟩,
   ⟨x.c2.b0, x.c1.b1, x.c0.b2, x.c3.b3⟩, ⟨x.c3.b0, x.c2.b1, x.c1.b2, x.c0.b3⟩⟩

/-- Mixes every column. -/
def mix (x : Block) : Block := x.map Column.mix

/-- Undoes `mix`. -/
def unmix (x : Block) : Block := x.map Column.unmix

/-- The bytes in order. -/
def toBytes (x : Block) : Bytes := x.c0.toBytes ++ x.c1.toBytes ++ x.c2.toBytes ++ x.c3.toBytes

/-- The block of exactly sixteen bytes. -/
def ofBytes? : Bytes → Option Block
  | [a0, a1, a2, a3, b0, b1, b2, b3, c0, c1, c2, c3, d0, d1, d2, d3] =>
    some ⟨⟨a0, a1, a2, a3⟩, ⟨b0, b1, b2, b3⟩, ⟨c0, c1, c2, c3⟩, ⟨d0, d1, d2, d3⟩⟩
  | _ => none

end Block

/-! ## Round keys -/

/-- Round keys: the one added first, those of the full rounds, and the one of the round without mixing. -/
structure RoundKeys where
  first : Block
  middle : List Block
  last : Block

namespace RoundKeys

/-- The columns of a key. -/
def columns : Bytes → List Column
  | b0 :: b1 :: b2 :: b3 :: rest => ⟨b0, b1, b2, b3⟩ :: columns rest
  | _ => []

/-- The next column of a key schedule with `size` columns to the key, given the columns so far with the
latest one first: the column one key length back plus the latest one, which is rotated, substituted and
given the round constant at the start of every key length, and only substituted half-way through a key of
eight columns. -/
def nextColumn (size index : Nat) (constant : UInt8) (latestFirst : List Column) : Column :=
  let latest := latestFirst.headD default
  let earlier := (latestFirst[size - 1]?).getD default
  let step :=
    if index % size = 0 then
      ((latest.rotate).map substitute).add ⟨constant, 0, 0, 0⟩
    else if size = 8 ∧ index % size = 4 then latest.map substitute
    else latest
  earlier.add step

/-- `count` further columns of a key schedule. -/
def extend (size index : Nat) (constant : UInt8) (latestFirst : List Column) : Nat → List Column
  | 0 => latestFirst
  | count + 1 =>
    let next := nextColumn size index constant latestFirst
    let constant := if index % size = 0 then double constant else constant
    extend size (index + 1) constant (next :: latestFirst) count

/-- Columns taken four at a time. -/
def blocks : List Column → List Block
  | c0 :: c1 :: c2 :: c3 :: rest => ⟨c0, c1, c2, c3⟩ :: blocks rest
  | _ => []

/-- The round keys of a key: seven more than the key has columns. -/
def ofKey (key : Bytes) : RoundKeys :=
  let keyColumns := columns key
  let size := keyColumns.length
  let all := (extend size size 1 keyColumns.reverse (4 * (size + 7) - size)).reverse
  match blocks all with
  | [] => ⟨default, [], default⟩
  | first :: rest => ⟨first, rest.dropLast, rest.getLastD default⟩

end RoundKeys

/-! ## Blocks -/

namespace Block

/-- A full round. -/
def round (x key : Block) : Block := x.substitute.shiftRows.mix.add key

/-- Undoes a full round. -/
def unround (x key : Block) : Block := (x.add key).unmix.unshiftRows.unsubstitute

/-- Enciphers a block. -/
def encipher (keys : RoundKeys) (x : Block) : Block :=
  (keys.middle.foldl round (x.add keys.first)).substitute.shiftRows.add keys.last

/-- Deciphers a block. -/
def decipher (keys : RoundKeys) (x : Block) : Block :=
  (keys.middle.foldr (fun key y => unround y key) (x.add keys.last).unshiftRows.unsubstitute).add
    keys.first

end Block

end Tagwire
