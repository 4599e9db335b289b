import Tagwire.Bytes
import Tagwire.Text.Quoted

/-!
# Hexadecimal

Bytes are written as pairs of lower-case digits and read from digits of either case.  Reading judges the
UTF-8 bytes of the text: first that their number is even, and then each of them in order.
-/

set_option autoImplicit false

namespace Tagwire

namespace Hex

/-- The lower-case digit of a value below sixteen, as a character code. -/
def digit (n : UInt8) : UInt8 := if n < 10 then 0x30 + n else 0x57 + n

/-- The value of a digit of either case. -/
def value? (c : UInt8) : Option UInt8 :=
  if 0x30 ≤ c ∧ c ≤ 0x39 then some (c - 0x30)
  else if 0x61 ≤ c ∧ c ≤ 0x66 then some (c - 0x57)
  else if 0x41 ≤ c ∧ c ≤ 0x46 then some (c - 0x37)
  else none

/-- The digits of bytes, as character codes. -/
def encodeBytes : Bytes → Bytes
  | [] => []
  | b :: rest => digit (b >>> 4) :: digit (b &&& 0x0F) :: encodeBytes rest

/-- The text with given character codes. -/
def ofCodes (codes : Bytes) : String := String.ofList (codes.map fun c => Char.ofNat c.toNat)

/-- The digits of bytes. -/
def encode (bytes : Bytes) : String := ofCodes (encodeBytes bytes)

/-- Why a text is no hexadecimal writing of bytes. -/
inductive DecodeError where
  | oddLength
  | invalidDigit (code : UInt8) (index : Nat)
deriving DecidableEq, Repr

namespace DecodeError

/-- The wording of the error; the offending byte is shown as the character with its code. -/
def message : DecodeError → String
  | oddLength => "Odd number of digits"
  | invalidDigit code index =>
    "Invalid character " ++ Quoted.char (Char.ofNat code.toNat) ++ " at position " ++ toString index

end DecodeError

/-- The bytes that pairs of digits write, the first digit being at an index. -/
def decodePairs (index : Nat) : Bytes → Except DecodeError Bytes
  | high :: low :: rest =>
    match value? high with
    | none => .error (.invalidDigit high index)
    | some h =>
      match value? low with
      | none => .error (.invalidDigit low (index + 1))
      | some l => (decodePairs (index + 2) rest).map ((h <<< 4 ||| l) :: ·)
  | _ => .ok []

/-- The bytes that digits write. -/
def decodeBytes (digits : Bytes) : Except DecodeError Bytes :=
  if digits.length % 2 = 1 then .error .oddLength else decodePairs 0 digits

/-- The bytes that a text writes. -/
def decode (text : String) : Except DecodeError Bytes := decodeBytes (Bytes.ofString text)

end Hex

end Tagwire
