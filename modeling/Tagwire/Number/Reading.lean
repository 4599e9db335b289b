import Tagwire.Number.Binary

/-!
# Numbers written as text

Members of a record may give a number as a string.  An integer is an optional sign and decimal digits; a
float is an optional sign and either digits with an optional point and exponent, or the name of an
infinity or of not-a-number in any letter case.  Neither admits blanks, and a float is read exactly and
rounded once.
-/

set_option autoImplicit false

namespace Tagwire

/-- The value of a decimal digit. -/
def digitValue (c : Char) : Nat := c.toNat - '0'.toNat

/-- The value of a string of decimal digits. -/
def digitsValue (cs : List Char) : Nat := cs.foldl (fun n c => 10 * n + digitValue c) 0

/-- The natural that a non-empty string of decimal digits writes. -/
def readDigits? (cs : List Char) : Option Nat :=
  if cs.isEmpty || cs.any (!·.isDigit) then none else some (digitsValue cs)

/-- An optional sign: whether it is negative, and what follows it. -/
def splitSign : List Char → Bool × List Char
  | '-' :: rest => (true, rest)
  | '+' :: rest => (false, rest)
  | rest => (false, rest)

/-- The integer that a text writes, with an optional sign. -/
def readInt? (text : String) : Option Int :=
  let (negative, digits) := splitSign text.toList
  (readDigits? digits).map fun n => if negative then -(n : Int) else n

/-- The natural that a text writes; of the signs only a plus is possible. -/
def readNat? (text : String) : Option Nat :=
  match text.toList with
  | '+' :: digits => readDigits? digits
  | digits => readDigits? digits

/-- A decimal number as written: its digits without the point, and the power of ten they are scaled by. -/
def readDecimal? (cs : List Char) : Option (Nat × Int) :=
  let whole := cs.takeWhile Char.isDigit
  let afterWhole := cs.dropWhile Char.isDigit
  let (fraction, afterFraction) := match afterWhole with
    | '.' :: rest => (rest.takeWhile Char.isDigit, rest.dropWhile Char.isDigit)
    | rest => ([], rest)
  if whole.isEmpty && fraction.isEmpty then none
  else
    let value := digitsValue (whole ++ fraction)
    let scale : Int := -(fraction.length : Int)
    match afterFraction with
    | [] => some (value, scale)
    | e :: rest =>
      if e = 'e' ∨ e = 'E' then
        let (negative, digits) := splitSign rest
        (readDigits? digits).map fun n => (value, if negative then scale - n else scale + n)
      else none

/-- The bits of the float that a text writes. -/
def FloatFormat.read? (f : FloatFormat) (text : String) : Option Nat :=
  let (negative, rest) := splitSign text.toList
  let word := String.ofList (rest.map Char.toLower)
  if word = "inf" ∨ word = "infinity" then some (f.withSign negative f.infinity)
  else if word = "nan" then some f.quietNaN
  else (readDecimal? rest).map fun (digits, exponent) => f.ofDecimal negative digits exponent

/-- The 64-bit float that a text writes. -/
def Binary64.read? (text : String) : Option Binary64 :=
  (FloatFormat.double.read? text).map Binary64.ofNatBits

/-- The 32-bit float that a text writes. -/
def Binary32.read? (text : String) : Option Binary32 :=
  (FloatFormat.single.read? text).map Binary32.ofNatBits

end Tagwire
