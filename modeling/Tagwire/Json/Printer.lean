import Tagwire.Json.Value
import Tagwire.Number.Shortest

/-!
# JSON text of a value

Two layouts of the same tokens: compact without any blank, and pretty with two blanks of indentation and
one member or item per line.  Characters outside ASCII are written as themselves, control characters as
escapes, and a float with the fewest digits that read back.
-/

set_option autoImplicit false

namespace Tagwire

namespace Json

/-- Floats are written positionally for decimal exponents from minus five to fifteen. -/
def floatNotation : FloatNotation := ⟨-5, 15⟩

/-- The text of a float; a value without a JSON number is written as null. -/
def floatText (x : Binary64) : String :=
  match x.parts with
  | .finite negative mantissa exponent =>
    let magnitude :=
      if mantissa = 0 then "0.0"
      else floatNotation.render (Decimal.shortest .double mantissa exponent)
    if negative then "-" ++ magnitude else magnitude
  | _ => "null"

/-- The lower-case hexadecimal digit of a value below sixteen. -/
def hexDigit (n : Nat) : Char := Nat.digitChar n

/-- One character inside quotes. -/
def escapeChar (c : Char) : List Char :=
  if c = '"' then ['\\', '"']
  else if c = '\\' then ['\\', '\\']
  else if c = '\n' then ['\\', 'n']
  else if c = '\r' then ['\\', 'r']
  else if c = '\t' then ['\\', 't']
  else if c.toNat = 8 then ['\\', 'b']
  else if c.toNat = 12 then ['\\', 'f']
  else if c.toNat < 32 then
    ['\\', 'u', '0', '0', hexDigit (c.toNat / 16), hexDigit (c.toNat % 16)]
  else [c]

/-- A string with its quotes. -/
def quote (s : String) : String := "\"" ++ String.ofList (s.toList.flatMap escapeChar) ++ "\""

/-- The text of a value that has no parts; arrays and objects have none. -/
def scalarText : Json → String
  | .null => "null"
  | .bool b => if b then "true" else "false"
  | .int n => toString n
  | .float x => floatText x
  | .str s => quote s
  | .arr _ => ""
  | .obj _ => ""

mutual

/-- The compact text of a value. -/
def compact : Json → String
  | .arr items => "[" ++ ",".intercalate (compactItems items) ++ "]"
  | .obj members => "\x7b" ++ ",".intercalate (compactMembers members) ++ "\x7d"
  | value => scalarText value

/-- The compact texts of the items of an array. -/
def compactItems : List Json → List String
  | [] => []
  | item :: rest => compact item :: compactItems rest

/-- The compact texts of the members of an object. -/
def compactMembers : List (String × Json) → List String
  | [] => []
  | (key, value) :: rest => (quote key ++ ":" ++ compact value) :: compactMembers rest

end

/-- The blanks at the start of a line at a depth of nesting. -/
def indent (depth : Nat) : String := "".pushn ' ' (2 * depth)

/-- Lines between an opening and a closing bracket, each one level deeper than the brackets. -/
def bracketed (opening closing : String) (depth : Nat) (lines : List String) : String :=
  if lines.isEmpty then opening ++ closing
  else
    opening ++ "\n" ++ ",\n".intercalate (lines.map (indent (depth + 1) ++ ·))
      ++ "\n" ++ indent depth ++ closing

mutual

/-- The pretty text of a value at a depth of nesting. -/
def prettyAt (depth : Nat) : Json → String
  | .arr items => bracketed "[" "]" depth (prettyItems (depth + 1) items)
  | .obj members => bracketed "\x7b" "\x7d" depth (prettyMembers (depth + 1) members)
  | value => scalarText value

/-- The pretty texts of the items of an array. -/
def prettyItems (depth : Nat) : List Json → List String
  | [] => []
  | item :: rest => prettyAt depth item :: prettyItems depth rest

/-- The pretty texts of the members of an object. -/
def prettyMembers (depth : Nat) : List (String × Json) → List String
  | [] => []
  | (key, value) :: rest => (quote key ++ ": " ++ prettyAt depth value) :: prettyMembers depth rest

end

/-- The pretty text of a value. -/
def pretty (value : Json) : String := prettyAt 0 value

end Json

end Tagwire
