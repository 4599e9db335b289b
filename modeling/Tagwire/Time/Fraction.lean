import Tagwire.Number.Reading

/-!
# Fractions of a second

A fraction of a second is a number of billionths.  It is written with three, six or nine digits, as few as
it needs, or left out when it is zero; it is read from any number of digits, of which the first nine count.
-/

set_option autoImplicit false

namespace Tagwire

/-- The billionths of a second. -/
def nanosPerSecond : Int := 1000000000

/-- A natural in decimal with zeros in front of it up to some number of digits. -/
def paddedDecimal (width n : Nat) : String :=
  let digits := Nat.toDigits 10 n
  String.ofList (List.replicate (width - digits.length) '0' ++ digits)

/-- The fraction of a number of billionths below a second, behind its point. -/
def fractionText (nanos : Nat) : String :=
  if nanos = 0 then ""
  else if nanos % 1000000 = 0 then "." ++ paddedDecimal 3 (nanos / 1000000)
  else if nanos % 1000 = 0 then "." ++ paddedDecimal 6 (nanos / 1000)
  else "." ++ paddedDecimal 9 nanos

/-- The billionths that the digits behind a point write. -/
def fractionNanos (digits : List Char) : Nat :=
  digitsValue ((digits ++ List.replicate 9 '0').take 9)

/-- Reads an optional fraction, which has one digit at least. -/
def readFractionNanos? (cs : List Char) : Option (Nat × List Char) :=
  match cs with
  | '.' :: rest =>
    let digits := rest.takeWhile Char.isDigit
    if digits.isEmpty then none else some (fractionNanos digits, rest.dropWhile Char.isDigit)
  | rest => some (0, rest)

/-- Reads some number of decimal digits. -/
def readFixedDigits? (count : Nat) (cs : List Char) : Option (Nat × List Char) :=
  let digits := cs.take count
  if digits.length = count ∧ digits.all Char.isDigit then some (digitsValue digits, cs.drop count)
  else none

/-- Reads a certain character. -/
def readChar? (c : Char) : List Char → Option (List Char)
  | d :: rest => if d = c then some rest else none
  | [] => none

end Tagwire
