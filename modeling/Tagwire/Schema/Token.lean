import Tagwire.Bytes
import Tagwire.Json.Parser
import Tagwire.Name

/-!
# Tokens of a schema document

A schema document is cut into words, numbers, strings and single marks, with blanks and comments between
them.  A comment runs to the end of its line or to its closing mark and does not nest.  A number must not
run into a word, and strings that follow each other are one string.
-/

set_option autoImplicit false

namespace Tagwire

namespace Schema

/-- A token of a schema document: a word, a number, the bytes of a string, or a mark. -/
inductive Token where
  | word (text : String)
  | natural (value : Nat)
  | decimal (value : Binary64)
  | text (bytes : Bytes)
  | mark (c : Char)
deriving DecidableEq, Repr, Inhabited

/-- Is it a blank between tokens: a space, a tab, or one of the characters that end a line or a page? -/
def isBlank (c : Char) : Bool :=
  c = ' ' || c = '\n' || c = '\t' || c = '\r' || c = '\x0b' || c = '\x0c'

/-- The characters behind an open block comment, unless it is never closed or another is opened in it. -/
def skipComment : List Char → Option (List Char)
  | '*' :: '/' :: rest => some rest
  | '/' :: '*' :: _ => none
  | _ :: rest => skipComment rest
  | [] => none

/-- The characters behind blanks and comments, unless a comment is never closed. -/
def skipBlanks : Nat → List Char → Option (List Char)
  | 0, cs => some cs
  | fuel + 1, cs =>
    match cs.dropWhile isBlank with
    | '/' :: '/' :: rest => skipBlanks fuel (rest.dropWhile (· != '\n'))
    | '/' :: '*' :: rest => (skipComment rest).bind (skipBlanks fuel)
    | rest => some rest

/-! ## Strings -/

/-- Is it an octal digit? -/
def isOctal (c : Char) : Bool := '0' ≤ c && c ≤ '7'

/-- The number that digits write in a base. -/
def valueInBase (base : Nat) (cs : List Char) : Nat :=
  cs.foldl (fun n c => base * n + (Json.hexValue? c).getD 0) 0

/-- Is it a hexadecimal digit? -/
def isHexDigit (c : Char) : Bool := (Json.hexValue? c).isSome

/-- The byte of an escape that is a backslash and one character. -/
def shortEscape? : Char → Option UInt8
  | 'a' => some 0x07
  | 'b' => some 0x08
  | 'f' => some 0x0C
  | 'n' => some 0x0A
  | 'r' => some 0x0D
  | 't' => some 0x09
  | 'v' => some 0x0B
  | '?' => some 0x3F
  | '\\' => some 0x5C
  | '\'' => some 0x27
  | '"' => some 0x22
  | _ => none

/-- The bytes in UTF-8 of the character whose code point is written in `count` hexadecimal digits, and what
follows. -/
def readCodePoint? (count : Nat) (cs : List Char) : Option (Bytes × List Char) :=
  let digits := cs.take count
  let n := valueInBase 16 digits
  if digits.length = count ∧ digits.all isHexDigit ∧ n.isValidChar then
    some (Bytes.ofString (String.singleton (Char.ofNat n)), cs.drop count)
  else none

/-- The bytes of an escape, behind its backslash, and what follows. -/
def readEscape? (cs : List Char) : Option (Bytes × List Char) :=
  match cs with
  | [] => none
  | c :: rest =>
    if c = 'x' ∨ c = 'X' then
      let digits := (rest.take 2).takeWhile isHexDigit
      if digits.isEmpty then none
      else some ([UInt8.ofNat (valueInBase 16 digits)], rest.drop digits.length)
    else if c = 'u' then readCodePoint? 4 rest
    else if c = 'U' then readCodePoint? 8 rest
    else if isOctal c then
      let digits := (cs.take 3).takeWhile isOctal
      let n := valueInBase 8 digits
      if n < 256 then some ([UInt8.ofNat n], cs.drop digits.length) else none
    else (shortEscape? c).map fun b => ([b], rest)

/-- The bytes of a string behind its opening quote and behind `read`, and what follows; it ends in the line that
it begins in. -/
def readText? (quote : Char) : Nat → Bytes → List Char → Option (Bytes × List Char)
  | 0, _, _ => none
  | _ + 1, _, [] => none
  | fuel + 1, read, c :: rest =>
    if c = quote then some (read, rest)
    else if c = '\n' then none
    else if c = '\\' then
      (readEscape? rest).bind fun (bytes, rest) => readText? quote fuel (read ++ bytes) rest
    else readText? quote fuel (read ++ Bytes.ofString (String.singleton c)) rest

/-! ## Numbers -/

/-- A number with a point or an exponent, as a 64-bit float, and what follows. -/
def readDecimalToken? (cs : List Char) : Option (Token × List Char) := do
  let whole := cs.takeWhile Char.isDigit
  let afterWhole := cs.dropWhile Char.isDigit
  let (fraction, afterFraction) := match afterWhole with
    | '.' :: rest => (rest.takeWhile Char.isDigit, rest.dropWhile Char.isDigit)
    | rest => ([], rest)
  let (exponent, rest) ← match afterFraction with
    | e :: rest =>
      if e = 'e' ∨ e = 'E' then
        let (negative, digits) := splitSign rest
        (readDigits? (digits.takeWhile Char.isDigit)).map fun n =>
          (if negative then -(n : Int) else n, digits.dropWhile Char.isDigit)
      else some (0, e :: rest)
    | [] => some ((0 : Int), [])
  let bits := FloatFormat.double.ofDecimal false (digitsValue (whole ++ fraction))
    (exponent - fraction.length)
  return (.decimal (.ofNatBits bits), rest)

/-- A natural below `2 ^ 64` in decimal, octal or hexadecimal, and what follows. -/
def readNaturalToken? (cs : List Char) : Option (Token × List Char) :=
  let (n, rest) := match cs with
    | '0' :: x :: rest =>
      if (x = 'x' ∨ x = 'X') ∧ (rest.head?.map isHexDigit).getD false then
        (valueInBase 16 (rest.takeWhile isHexDigit), rest.dropWhile isHexDigit)
      else (valueInBase 8 ((x :: rest).takeWhile isOctal), (x :: rest).dropWhile isOctal)
    | cs => (digitsValue (cs.takeWhile Char.isDigit), cs.dropWhile Char.isDigit)
  if n < 2 ^ 64 then some (.natural n, rest) else none

/-- Does a point or an exponent follow the digits at the start? -/
def startsDecimal (cs : List Char) : Bool :=
  match cs.dropWhile Char.isDigit with
  | c :: _ => c == '.' || c == 'e' || c == 'E'
  | [] => false

/-- The number at the start, and what follows, which may not be a character of a word. -/
def readNumberToken? (cs : List Char) : Option (Token × List Char) := do
  let (token, rest) ← if startsDecimal cs then readDecimalToken? cs else readNaturalToken? cs
  if (rest.head?.map isIdentifierRest).getD false then none else return (token, rest)

/-! ## The document -/

/-- Is it a mark, a token of one character? -/
def isMark (c : Char) : Bool :=
  c = ';' || c = ',' || c = '.' || c = ':' || c = '=' || c = '-' || c = '+' || c = '/'
    || c = '<' || c = '>' || c = '(' || c = ')' || c = '[' || c = ']' || c = '\x7b' || c = '\x7d'

/-- The token at the start of a nonempty text, and what follows. -/
def readToken? (cs : List Char) : Option (Token × List Char) :=
  match cs with
  | [] => none
  | c :: rest =>
    if isIdentifierStart c then
      some (.word (String.ofList (c :: rest.takeWhile isIdentifierRest)), rest.dropWhile isIdentifierRest)
    else if c.isDigit || (c == '.' && (rest.head?.map Char.isDigit).getD false) then readNumberToken? cs
    else if c = '"' ∨ c = '\'' then
      (readText? c (rest.length + 1) [] rest).map fun (bytes, rest) => (.text bytes, rest)
    else if isMark c then some (.mark c, rest)
    else none

/-- Puts a token in front of others; a string is joined with one that follows it. -/
def Token.cons : Token → List Token → List Token
  | .text a, .text b :: rest => .text (a ++ b) :: rest
  | token, rest => token :: rest

/-- The tokens of a text no longer than the first argument; each of them shortens it. -/
def readTokens? : Nat → List Char → Option (List Token)
  | fuel, cs =>
    match skipBlanks (fuel + 1) cs with
    | none => none
    | some [] => some []
    | some rest =>
      match fuel with
      | 0 => none
      | fuel + 1 =>
        (readToken? rest).bind fun (token, rest) => (readTokens? fuel rest).map (Token.cons token)

/-- The tokens of a schema document. -/
def tokens? (text : String) : Option (List Token) :=
  let cs := text.toList
  readTokens? cs.length cs

end Schema

end Tagwire
