import Tagwire.Number.Binary

/-!
# The shortest decimal that reads back

A finite float is printed with the fewest digits that read back to the same bits.  The reals that round
to a float form an interval around it; on the grid of decimals with a given number of digits only the two
neighbours of the float can lie in that interval whenever any grid point does.  So the grids are tried
from one digit upwards, in exact arithmetic, and the first with a neighbour inside gives the digits: the
nearer neighbour, and of two equally near ones the even one.
-/

set_option autoImplicit false

namespace Tagwire

/-- A decimal magnitude `digits · 10 ^ exponent`. -/
structure Decimal where
  digits : Nat
  exponent : Int
deriving DecidableEq, Repr

/-- The number of decimal digits of a natural, one for zero. -/
def digitCount (n : Nat) : Nat := (Nat.toDigits 10 n).length

/-- The greatest `e` with `10 ^ e ≤ num / den`, for positive `num` and `den`. -/
def floorLog10 (num den : Nat) : Int :=
  if den ≤ num then digitCount (num / den) - 1
  else -(digitCount ((den + num - 1) / num - 1) : Int)

/-- The interval of reals that round to a float, as numerators over one denominator. -/
structure RoundingInterval where
  low : Nat
  value : Nat
  high : Nat
  unit : Nat
  closed : Bool

namespace RoundingInterval

/-- The interval around `mantissa · 2 ^ exponent`: half a gap to either side, a quarter below a power of
two whose lower neighbour is nearer; the ends belong to it exactly when the mantissa is even. -/
def around (f : FloatFormat) (mantissa : Nat) (exponent : Int) : RoundingInterval :=
  let shift := exponent - 2
  let scale := 2 ^ shift.toNat
  let below := if mantissa = 2 ^ f.fractionBits ∧ f.minExponent < exponent then 1 else 2
  { low := (4 * mantissa - below) * scale
    value := 4 * mantissa * scale
    high := (4 * mantissa + 2) * scale
    unit := 2 ^ (-shift).toNat
    closed := mantissa % 2 == 0 }

/-- Does `num / den` round to the float? -/
def holds (i : RoundingInterval) (num den : Nat) : Bool :=
  let x := num * i.unit
  if i.closed then i.low * den ≤ x && x ≤ i.high * den
  else i.low * den < x && x < i.high * den

/-- The neighbour of the float on the grid of multiples of `10 ^ exponent` that reads back and is nearest. -/
def onGrid (i : RoundingInterval) (exponent : Int) : Option Decimal :=
  let up := 10 ^ exponent.toNat
  let down := 10 ^ (-exponent).toNat
  let num := i.value * down
  let den := i.unit * up
  let lower := num / den
  let remainder := num % den
  let lowerHolds := i.holds (lower * up) down
  let upperHolds := i.holds ((lower + 1) * up) down
  if lowerHolds && (!upperHolds || 2 * remainder < den || (2 * remainder == den && lower % 2 == 0)) then
    some ⟨lower, exponent⟩
  else if upperHolds then some ⟨lower + 1, exponent⟩
  else none

/-- The first grid with a neighbour inside, among the grids of `digits` and the following counts of digits. -/
def firstGrid (i : RoundingInterval) (top : Int) (digits : Nat) : Nat → Decimal
  | 0 => ⟨i.value / i.unit, 0⟩
  | fuel + 1 => ((i.onGrid (top + 1 - digits)).getD (i.firstGrid top (digits + 1) fuel))

end RoundingInterval

namespace Decimal

/-- The same magnitude without trailing zeros among its digits. -/
def normalize (digits : Nat) (exponent : Int) : Nat → Decimal
  | 0 => ⟨digits, exponent⟩
  | fuel + 1 =>
    if digits ≠ 0 ∧ digits % 10 = 0 then normalize (digits / 10) (exponent + 1) fuel
    else ⟨digits, exponent⟩

/-- The shortest decimal that reads back as `mantissa · 2 ^ exponent`; seventeen digits always suffice. -/
def shortest (f : FloatFormat) (mantissa : Nat) (exponent : Int) : Decimal :=
  let i := RoundingInterval.around f mantissa exponent
  let d := i.firstGrid (floorLog10 i.value i.unit) 1 17
  normalize d.digits d.exponent 18

end Decimal

/-- How a float is written: the decimal exponents that are written positionally. -/
structure FloatNotation where
  leastPositional : Int
  greatestPositional : Int

namespace FloatNotation

/-- The digits of a magnitude, positional or with an exponent, always with a sign on the exponent and a
fraction in positional form. -/
def render (n : FloatNotation) (d : Decimal) : String :=
  let digits := Nat.toDigits 10 d.digits
  let leading : Int := digits.length + d.exponent - 1
  if n.leastPositional ≤ leading ∧ leading ≤ n.greatestPositional then
    if 0 ≤ d.exponent then
      String.ofList (digits ++ List.replicate d.exponent.toNat '0') ++ ".0"
    else if 0 ≤ leading then
      String.ofList (digits.take (leading.toNat + 1) ++ '.' :: digits.drop (leading.toNat + 1))
    else
      "0." ++ String.ofList (List.replicate (-leading - 1).toNat '0' ++ digits)
  else
    let mantissa := match digits with
      | [] => []
      | [c] => [c]
      | c :: rest => c :: '.' :: rest
    String.ofList mantissa ++ (if leading < 0 then "e-" else "e+") ++ toString leading.natAbs

end FloatNotation

end Tagwire
