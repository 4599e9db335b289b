import Tagwire.Bytes

/-!
# Text in UTF-8

Bytes are a text exactly when they are its UTF-8 form.  When they are not, the fault is the first place
where no character can be read: either the bytes end inside a character, or a number of bytes there, the
longest that some character could have started with, is invalid.
-/

set_option autoImplicit false

namespace Tagwire

/-- Where and how bytes stop being UTF-8. -/
inductive Utf8Error where
  | invalid (length : Nat) (index : Nat)
  | incomplete (index : Nat)
deriving DecidableEq, Repr

namespace Utf8Error

/-- The wording of the error. -/
def message : Utf8Error → String
  | invalid length index =>
    "invalid utf-8 sequence of " ++ toString length ++ " bytes from index " ++ toString index
  | incomplete index => "incomplete utf-8 byte sequence from index " ++ toString index

end Utf8Error

namespace Utf8

/-- What a first byte asks for: how many bytes follow it, and the range of the first of them. -/
def follow? (first : UInt8) : Option (Nat × UInt8 × UInt8) :=
  if first < 0x80 then some (0, 0, 0)
  else if first < 0xC2 then none
  else if first < 0xE0 then some (1, 0x80, 0xBF)
  else if first = 0xE0 then some (2, 0xA0, 0xBF)
  else if first = 0xED then some (2, 0x80, 0x9F)
  else if first < 0xF0 then some (2, 0x80, 0xBF)
  else if first = 0xF0 then some (3, 0x90, 0xBF)
  else if first < 0xF4 then some (3, 0x80, 0xBF)
  else if first = 0xF4 then some (3, 0x80, 0x8F)
  else none

/-- The fault of a text from an index on.

While `pending` bytes of a character are missing, `read` bytes of it stand at `index` and the next one
has to lie between `low` and `high`. -/
def fault (index read pending : Nat) (low high : UInt8) : Bytes → Utf8Error
  | [] => .incomplete index
  | b :: rest =>
    match pending with
    | 0 =>
      match follow? b with
      | none => .invalid 1 index
      | some (0, _) => fault (index + 1) 0 0 0 0 rest
      | some (pending, low, high) => fault index 1 pending low high rest
    | pending + 1 =>
      if low ≤ b ∧ b ≤ high then
        match pending with
        | 0 => fault (index + read + 1) 0 0 0 0 rest
        | pending => fault index (read + 1) pending 0x80 0xBF rest
      else .invalid read index

/-- The text that bytes write. -/
def decode? (bytes : Bytes) : Option String := String.fromUTF8? (ByteArray.mk bytes.toArray)

/-- The text that bytes write, or their first fault. -/
def decode (bytes : Bytes) : Except Utf8Error String :=
  match decode? bytes with
  | some text => .ok text
  | none => .error (fault 0 0 0 0 0 bytes)

end Utf8

end Tagwire
