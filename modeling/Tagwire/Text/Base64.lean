import Tagwire.Bytes

/-!
# Base 64

Three bytes are written as four characters of six bits each.  The writer uses the standard alphabet and
pads the last quartet; the reader takes either alphabet, the padding may be missing in part or wholly,
and bits that are left over at the end are dropped.
-/

set_option autoImplicit false

namespace Tagwire

namespace Base64

/-- The character of six bits. -/
def symbol (n : Nat) : Char :=
  if n < 26 then Char.ofNat ('A'.toNat + n)
  else if n < 52 then Char.ofNat ('a'.toNat + (n - 26))
  else if n < 62 then Char.ofNat ('0'.toNat + (n - 52))
  else if n = 62 then '+'
  else '/'

/-- The characters of some bytes, with padding. -/
def encodeChars : Bytes → List Char
  | a :: b :: c :: rest =>
    let n := (a.toNat * 256 + b.toNat) * 256 + c.toNat
    symbol (n / 2 ^ 18) :: symbol (n / 2 ^ 12 % 64) :: symbol (n / 2 ^ 6 % 64) :: symbol (n % 64)
      :: encodeChars rest
  | [a, b] =>
    let n := a.toNat * 256 + b.toNat
    [symbol (n / 2 ^ 10), symbol (n / 2 ^ 4 % 64), symbol (n % 16 * 4), '=']
  | [a] => [symbol (a.toNat / 4), symbol (a.toNat % 4 * 16), '=', '=']
  | [] => []

/-- The text that writes some bytes. -/
def encode (bytes : Bytes) : String := String.ofList (encodeChars bytes)

/-- An alphabet: its characters for the last two values. -/
structure Alphabet where
  plus : Char
  slash : Char

/-- The alphabet with a plus sign and a slash. -/
def standard : Alphabet := ⟨'+', '/'⟩

/-- The alphabet whose texts need no escaping in an address. -/
def addressSafe : Alphabet := ⟨'-', '_'⟩

/-- The six bits of a character. -/
def Alphabet.value? (alphabet : Alphabet) (c : Char) : Option Nat :=
  if c.isUpper then some (c.toNat - 'A'.toNat)
  else if c.isLower then some (c.toNat - 'a'.toNat + 26)
  else if c.isDigit then some (c.toNat - '0'.toNat + 52)
  else if c = alphabet.plus then some 62
  else if c = alphabet.slash then some 63
  else none

/-- The bytes of the last characters of a text, which are four at most and may be padding after the
second. -/
def decodeLast (alphabet : Alphabet) : List Char → Option Bytes
  | [] => some []
  | a :: b :: rest => do
    let a ← alphabet.value? a
    let b ← alphabet.value? b
    match rest with
    | [] | ['='] | ['=', '='] => return [UInt8.ofNat (a * 4 + b / 16)]
    | [c] | [c, '='] =>
      let c ← alphabet.value? c
      return [UInt8.ofNat (a * 4 + b / 16), UInt8.ofNat (b % 16 * 16 + c / 4)]
    | [c, d] =>
      let c ← alphabet.value? c
      let d ← alphabet.value? d
      return [UInt8.ofNat (a * 4 + b / 16), UInt8.ofNat (b % 16 * 16 + c / 4),
        UInt8.ofNat (c % 4 * 64 + d)]
    | _ => none
  | _ => none

/-- The bytes that characters of one alphabet write. -/
def decodeChars (alphabet : Alphabet) : List Char → Option Bytes
  | a :: b :: c :: d :: e :: rest =>
    if d = '=' then none
    else
      match decodeLast alphabet [a, b, c, d] with
      | some quartet => (decodeChars alphabet (e :: rest)).map (quartet ++ ·)
      | none => none
  | last => decodeLast alphabet last

/-- The bytes that a text writes in either alphabet. -/
def decode? (text : String) : Option Bytes :=
  match decodeChars standard text.toList with
  | some bytes => some bytes
  | none => decodeChars addressSafe text.toList

end Base64

end Tagwire
