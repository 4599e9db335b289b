import Tagwire.Json.Value
import Tagwire.Number.Reading

/-!
# Reading JSON text

A text is cut into tokens, and the tokens drive a machine whose stack holds the containers that are still
open.  Each token is consumed once, so the machine is a fold over the tokens and its stack is the nesting
depth, which may not exceed 127.  Nothing may follow the value but blanks, an object's later member
replaces an earlier one of its key, and a surrogate escape must have its partner.

A number is read in two steps.  As many leading digits as fit 64 bits form the significand, further ones
only shift the exponent, and the significand is then scaled by a power of ten in floating point.
-/

set_option autoImplicit false

namespace Tagwire

namespace Json

/-! ## Numbers -/

/-- `10 ^ n` as a float. -/
def powerOfTen (n : Nat) : Binary64 := .ofNatBits (FloatFormat.double.nearest (10 ^ n) 1)

/-- A magnitude divided by `10 ^ exponent`, in steps of at most 308 places. -/
def scaleDown (x : Binary64) (exponent : Nat) : Binary64 :=
  if exponent ≤ 308 then x.divMagnitude (powerOfTen exponent)
  else if x = .zero then x
  else scaleDown (x.divMagnitude (powerOfTen 308)) (exponent - 308)
termination_by exponent

/-- A significand scaled by a power of ten, rounding once for each step; nothing if it is too large. -/
def scaled? (significand : Nat) (exponent : Int) : Option Binary64 :=
  let x := Binary64.ofInt significand
  if exponent < 0 then some (scaleDown x exponent.natAbs)
  else if x = .zero then some x
  else if 308 < exponent then none
  else
    let product := x.mulMagnitude (powerOfTen exponent.toNat)
    if product.isFinite then some product else none

/-- Appends digits to a significand while it stays below `2 ^ 64`: the significand, the number of digits
appended, and what is left. -/
def takeSignificand (significand taken : Nat) : List Char → Nat × Nat × List Char
  | [] => (significand, taken, [])
  | c :: rest =>
    let next := 10 * significand + digitValue c
    if c.isDigit && next < 2 ^ 64 then takeSignificand next (taken + 1) rest
    else (significand, taken, c :: rest)

/-- A float with its sign. -/
def signed (negative : Bool) (x : Binary64) : Json := .float (if negative then x.neg else x)

/-- What follows the digits of a float: an optional exponent, and then the value. -/
def readExponent (negative : Bool) (significand : Nat) (exponent : Int) (cs : List Char) :
    Option (Json × List Char) :=
  match cs with
  | [] => (scaled? significand exponent).map fun x => (signed negative x, [])
  | e :: rest =>
    if e = 'e' ∨ e = 'E' then
      let (negativeExponent, afterSign) := splitSign rest
      let digits := afterSign.takeWhile Char.isDigit
      if digits.isEmpty then none
      else
        let n : Int := digitsValue digits
        (scaled? significand (if negativeExponent then exponent - n else exponent + n)).map fun x =>
          (signed negative x, afterSign.dropWhile Char.isDigit)
    else (scaled? significand exponent).map fun x => (signed negative x, e :: rest)

/-- What follows the whole part of a number: an optional fraction and exponent. -/
def readFraction (negative : Bool) (significand dropped : Nat) (cs : List Char) :
    Option (Json × List Char) :=
  match cs with
  | '.' :: rest =>
    if (rest.head?.map Char.isDigit).getD false then
      let (significand, taken, more) := takeSignificand significand 0 rest
      readExponent negative significand ((dropped : Int) - taken) (more.dropWhile Char.isDigit)
    else none
  | rest => readExponent negative significand dropped rest

/-- An integer that fits 64 bits, and a float otherwise; minus zero is a float. -/
def wholeNumber (negative : Bool) (n : Nat) : Json :=
  if negative then
    if n = 0 ∨ 2 ^ 63 < n then .float (Binary64.ofInt n).neg else .int (-(n : Int))
  else .int n

/-- Does a fraction or an exponent come next? -/
def continuesAsFloat : List Char → Bool
  | [] => false
  | c :: _ => c == '.' || c == 'e' || c == 'E'

/-- A number after its sign; a leading zero stands alone. -/
def readMagnitude (negative : Bool) (cs : List Char) : Option (Json × List Char) :=
  let (significand, taken, rest) := takeSignificand 0 0 cs
  let dropped := rest.takeWhile Char.isDigit
  let after := rest.dropWhile Char.isDigit
  let leadingZero := cs.head? == some '0'
  if taken = 0 ∨ (leadingZero ∧ 1 < taken) then none
  else if dropped.isEmpty && !continuesAsFloat after then
    some (wholeNumber negative significand, after)
  else readFraction negative significand dropped.length after

/-- A number with an optional minus sign. -/
def readNumber : List Char → Option (Json × List Char)
  | '-' :: rest => readMagnitude true rest
  | cs => readMagnitude false cs

/-! ## Strings -/

/-- The value of a hexadecimal digit of either case. -/
def hexValue? (c : Char) : Option Nat :=
  if c.isDigit then some (c.toNat - '0'.toNat)
  else if 'a' ≤ c ∧ c ≤ 'f' then some (c.toNat - 'a'.toNat + 10)
  else if 'A' ≤ c ∧ c ≤ 'F' then some (c.toNat - 'A'.toNat + 10)
  else none

/-- The value of four hexadecimal digits. -/
def hexUnit? (a b c d : Char) : Option Nat := do
  return (((← hexValue? a) * 16 + (← hexValue? b)) * 16 + (← hexValue? c)) * 16 + (← hexValue? d)

/-- Is it the first unit of a surrogate pair? -/
def isHighSurrogate (n : Nat) : Bool := 0xD800 ≤ n && n < 0xDC00

/-- Is it the second unit of a surrogate pair? -/
def isLowSurrogate (n : Nat) : Bool := 0xDC00 ≤ n && n < 0xE000

/-- The character of an escape with one letter. -/
def shortEscape? : Char → Option Char
  | '"' => some '"'
  | '\\' => some '\\'
  | '/' => some '/'
  | 'b' => some '\x08'
  | 'f' => some '\x0c'
  | 'n' => some '\n'
  | 'r' => some '\r'
  | 't' => some '\t'
  | _ => none

/-- The rest of a string after its opening quote, with the characters read so far in reverse. -/
def readString (read : List Char) : List Char → Option (String × List Char)
  | '"' :: rest => some (String.ofList read.reverse, rest)
  | '\\' :: 'u' :: a :: b :: c :: d :: '\\' :: 'u' :: e :: f :: g :: h :: rest =>
    match hexUnit? a b c d with
    | none => none
    | some unit =>
      if isHighSurrogate unit then
        match hexUnit? e f g h with
        | none => none
        | some low =>
          if isLowSurrogate low then
            readString (Char.ofNat (0x10000 + (unit - 0xD800) * 0x400 + (low - 0xDC00)) :: read) rest
          else none
      else if isLowSurrogate unit then none
      else readString (Char.ofNat unit :: read) ('\\' :: 'u' :: e :: f :: g :: h :: rest)
  | '\\' :: 'u' :: a :: b :: c :: d :: rest =>
    match hexUnit? a b c d with
    | none => none
    | some unit =>
      if isHighSurrogate unit || isLowSurrogate unit then none
      else readString (Char.ofNat unit :: read) rest
  | '\\' :: c :: rest =>
    match shortEscape? c with
    | none => none
    | some c => readString (c :: read) rest
  | c :: rest => if c.toNat < 32 then none else readString (c :: read) rest
  | [] => none

/-! ## Tokens -/

/-- A token: punctuation, or a value that is not a container. -/
inductive Token where
  | openArray
  | closeArray
  | openObject
  | closeObject
  | colon
  | comma
  | scalar (value : Json)
deriving BEq, Repr, Inhabited

/-- Is it one of the four blanks between tokens? -/
def isBlank (c : Char) : Bool := c = ' ' || c = '\n' || c = '\t' || c = '\r'

/-- The token at the start of a text, and what follows it. -/
def readToken : List Char → Option (Token × List Char)
  | '[' :: rest => some (.openArray, rest)
  | ']' :: rest => some (.closeArray, rest)
  | '\x7b' :: rest => some (.openObject, rest)
  | '\x7d' :: rest => some (.closeObject, rest)
  | ':' :: rest => some (.colon, rest)
  | ',' :: rest => some (.comma, rest)
  | '"' :: rest => (readString [] rest).map fun (s, rest) => (.scalar (.str s), rest)
  | 't' :: 'r' :: 'u' :: 'e' :: rest => some (.scalar (.bool true), rest)
  | 'f' :: 'a' :: 'l' :: 's' :: 'e' :: rest => some (.scalar (.bool false), rest)
  | 'n' :: 'u' :: 'l' :: 'l' :: rest => some (.scalar .null, rest)
  | cs => (readNumber cs).map fun (value, rest) => (.scalar value, rest)

/-- The tokens of a text, which every one of them shortens. -/
def tokens (fuel : Nat) (cs : List Char) (read : List Token) : Option (List Token) :=
  match fuel, cs.dropWhile isBlank with
  | _, [] => some read.reverse
  | 0, _ => none
  | fuel + 1, cs =>
    match readToken cs with
    | some (token, rest) => tokens fuel rest (token :: read)
    | none => none

/-! ## Nesting -/

/-- A container that is still open, with its parts so far; an object also has the key of the next one. -/
inductive Frame where
  | array (items : List Json)
  | object (members : List (String × Json)) (key : String)
deriving Inhabited

/-- What may come next. -/
inductive Expect where
  | value
  | valueOrClose
  | key
  | keyOrClose
  | colon
  | commaOrClose
  | done (value : Json)
deriving Inhabited

/-- The state between two tokens. -/
structure Nesting where
  stack : List Frame
  expect : Expect
deriving Inhabited

namespace Nesting

/-- How many containers may be open at once: 127. -/
def maxDepth : Nat := 127

/-- Puts a finished value into the innermost open container. -/
def supply (stack : List Frame) (value : Json) : Nesting :=
  match stack with
  | [] => ⟨[], .done value⟩
  | .array items :: rest => ⟨.array (value :: items) :: rest, .commaOrClose⟩
  | .object members key :: rest =>
    ⟨.object (Entries.insert members key value) key :: rest, .commaOrClose⟩

/-- Opens a container unless that would nest too deep. -/
def enter (stack : List Frame) (frame : Frame) (expect : Expect) : Option Nesting :=
  if stack.length < maxDepth then some ⟨frame :: stack, expect⟩ else none

/-- Reads the token where a value may stand. -/
def value (stack : List Frame) : Token → Option Nesting
  | .scalar v => some (supply stack v)
  | .openArray => enter stack (.array []) .valueOrClose
  | .openObject => enter stack (.object [] "") .keyOrClose
  | _ => none

/-- Closes the innermost container with the bracket that fits it. -/
def close (stack : List Frame) : Token → Option Nesting
  | .closeArray =>
    match stack with
    | .array items :: rest => some (supply rest (.arr items.reverse))
    | _ => none
  | .closeObject =>
    match stack with
    | .object members _ :: rest => some (supply rest (.obj members))
    | _ => none
  | _ => none

/-- Reads the key of a member. -/
def key (stack : List Frame) : Token → Option Nesting
  | .scalar (.str k) =>
    match stack with
    | .object members _ :: rest => some ⟨.object members k :: rest, .colon⟩
    | _ => none
  | _ => none

/-- One token. -/
def step (n : Nesting) (token : Token) : Option Nesting :=
  match n.expect with
  | .value => value n.stack token
  | .valueOrClose => if token == .closeArray then close n.stack token else value n.stack token
  | .key => key n.stack token
  | .keyOrClose => if token == .closeObject then close n.stack token else key n.stack token
  | .colon => if token == .colon then some ⟨n.stack, .value⟩ else none
  | .commaOrClose =>
    if token == .comma then
      match n.stack with
      | .array _ :: _ => some ⟨n.stack, .value⟩
      | .object .. :: _ => some ⟨n.stack, .key⟩
      | [] => none
    else close n.stack token
  | .done _ => none

/-- The value, once nothing is open any more. -/
def result? (n : Nesting) : Option Json :=
  match n.expect with
  | .done value => some value
  | _ => none

end Nesting

/-- The value that a text writes, with nothing but blanks around it. -/
def parse? (text : String) : Option Json := do
  let cs := text.toList
  let ts ← tokens cs.length cs []
  let final ← ts.foldlM Nesting.step ⟨[], .value⟩
  final.result?

end Json

end Tagwire
