import Tagwire.Text.Invisible

/-!
# Texts quoted in messages

A message quotes a text between double quotes and a single character between single ones.  The quote of
the kind in use, the backslash and the invisible characters are written as escapes, the common ones short
and the rest by their code point.
-/

set_option autoImplicit false

namespace Tagwire

namespace Quoted

/-- The code point of a character as an escape. -/
def codePoint (c : Char) : String :=
  "\\u\x7b" ++ String.ofList (Nat.toDigits 16 c.toNat) ++ "\x7d"

/-- A character between quotes of a kind. -/
def inside (quote c : Char) : String :=
  if c = quote then String.ofList ['\\', c]
  else if c = '\\' then "\\\\"
  else if c = '\n' then "\\n"
  else if c = '\r' then "\\r"
  else if c = '\t' then "\\t"
  else if c.toNat = 0 then "\\0"
  else if isInvisible c then codePoint c
  else c.toString

/-- A text between double quotes. -/
def text (s : String) : String := "\"" ++ String.join (s.toList.map (inside '"')) ++ "\""

/-- A character between single quotes. -/
def char (c : Char) : String := "'" ++ inside '\'' c ++ "'"

end Quoted

end Tagwire
