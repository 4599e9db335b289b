import Tagwire.Bytes

/-!
# Binary floating-point numbers as bit patterns

A record carries 64-bit floats and the wire carries 32-bit ones as well.  Both are kept as their bit
patterns, and everything that rounds goes through one function, `FloatFormat.nearest`: the magnitude
nearest to an exact ratio of naturals, a tie going to the even neighbour.  Reading a decimal, scaling,
narrowing and converting an integer are each that function applied to the exact value, so what each of
them computes is stated by its argument.
-/

set_option autoImplicit false

namespace Tagwire

/-- The interchange format of a float: how many bits hold its fraction and how many its exponent. -/
structure FloatFormat where
  fractionBits : Nat
  exponentBits : Nat
deriving DecidableEq, Repr

/-- What a bit pattern stands for; a finite value is `± mantissa · 2 ^ exponent`. -/
inductive FloatParts where
  | nan
  | infinite (negative : Bool)
  | finite (negative : Bool) (mantissa : Nat) (exponent : Int)
deriving DecidableEq, Repr

/-- `num / den` rounded to the nearest natural, a half going to the even neighbour. -/
def roundHalfEven (num den : Nat) : Nat :=
  let quotient := num / den
  let remainder := num % den
  if 2 * remainder < den then quotient
  else if den < 2 * remainder then quotient + 1
  else quotient + quotient % 2

/-- The greatest `e` with `2 ^ e ≤ num / den`, for positive `num` and `den`. -/
def floorLog2 (num den : Nat) : Int :=
  let guess : Int := (num.log2 : Int) - (den.log2 : Int)
  if num * 2 ^ (-guess).toNat < den * 2 ^ guess.toNat then guess - 1 else guess

namespace FloatFormat

/-- The exponent of the last place of the smallest numbers. -/
def minExponent (f : FloatFormat) : Int :=
  2 - 2 ^ (f.exponentBits - 1) - f.fractionBits

/-- The weight of the sign bit. -/
def signWeight (f : FloatFormat) : Nat := 2 ^ (f.fractionBits + f.exponentBits)

/-- The bits of positive infinity, above those of every finite magnitude. -/
def infinity (f : FloatFormat) : Nat := (2 ^ f.exponentBits - 1) * 2 ^ f.fractionBits

/-- The value that a bit pattern stands for. -/
def decode (f : FloatFormat) (bits : Nat) : FloatParts :=
  let negative := bits / f.signWeight % 2 == 1
  let magnitude := bits % f.signWeight
  let exponent := magnitude / 2 ^ f.fractionBits
  let fraction := magnitude % 2 ^ f.fractionBits
  if f.infinity < magnitude then .nan
  else if magnitude = f.infinity then .infinite negative
  else if exponent = 0 then .finite negative fraction f.minExponent
  else .finite negative (2 ^ f.fractionBits + fraction) (f.minExponent + exponent - 1)

/-- The magnitude nearest to `num / den`: ties go to the even pattern, and what is too large is infinite.

The rounded mantissa is added to the exponent field, so that a mantissa rounded up to the next power
of two carries into the exponent by itself. -/
def nearest (f : FloatFormat) (num den : Nat) : Nat :=
  if num = 0 then 0
  else
    let unit := max (floorLog2 num den - f.fractionBits) f.minExponent
    let mantissa := roundHalfEven (num * 2 ^ (-unit).toNat) (den * 2 ^ unit.toNat)
    min f.infinity ((unit - f.minExponent).toNat * 2 ^ f.fractionBits + mantissa)

/-- A magnitude with its sign. -/
def withSign (f : FloatFormat) (negative : Bool) (magnitude : Nat) : Nat :=
  if negative then f.signWeight + magnitude else magnitude

/-- The bits nearest to `± mantissa · 2 ^ exponent`. -/
def nearestScaled (f : FloatFormat) (negative : Bool) (mantissa : Nat) (exponent : Int) : Nat :=
  f.withSign negative (f.nearest (mantissa * 2 ^ exponent.toNat) (2 ^ (-exponent).toNat))

/-- The bits of the quiet not-a-number. -/
def quietNaN (f : FloatFormat) : Nat := f.infinity + 2 ^ (f.fractionBits - 1)

/-- The bits of a value given by its parts, rounded where the format is too narrow. -/
def encode (f : FloatFormat) : FloatParts → Nat
  | .nan => f.quietNaN
  | .infinite negative => f.withSign negative f.infinity
  | .finite negative mantissa exponent => f.nearestScaled negative mantissa exponent

/-- The bits nearest to `± digits · 10 ^ exponent`.

Beyond four hundred decimal places either way every supported format is already infinite or zero, so
the power of ten is never built for an exponent outside that range. -/
def ofDecimal (f : FloatFormat) (negative : Bool) (digits : Nat) (exponent : Int) : Nat :=
  let places : Int := (Nat.toDigits 10 digits).length + exponent
  f.withSign negative <|
    if digits = 0 ∨ places < -400 then 0
    else if 400 < places then f.infinity
    else f.nearest (digits * 10 ^ exponent.toNat) (10 ^ (-exponent).toNat)

/-- The 64-bit format. -/
def double : FloatFormat := ⟨52, 11⟩

/-- The 32-bit format. -/
def single : FloatFormat := ⟨23, 8⟩

end FloatFormat

/-- A 64-bit float, as its bit pattern. -/
structure Binary64 where
  bits : UInt64
deriving DecidableEq, Repr, Inhabited

/-- A 32-bit float, as its bit pattern. -/
structure Binary32 where
  bits : UInt32
deriving DecidableEq, Repr, Inhabited

namespace Binary64

/-- What the number is. -/
def parts (x : Binary64) : FloatParts := FloatFormat.double.decode x.bits.toNat

/-- The number with the given pattern. -/
def ofNatBits (bits : Nat) : Binary64 := ⟨UInt64.ofNat bits⟩

/-- Positive zero. -/
def zero : Binary64 := ⟨0⟩

/-- Positive infinity. -/
def infinity : Binary64 := ofNatBits FloatFormat.double.infinity

/-- The quiet not-a-number. -/
def nan : Binary64 := ofNatBits FloatFormat.double.quietNaN

/-- The same number with the other sign. -/
def neg (x : Binary64) : Binary64 := ⟨x.bits ^^^ 0x8000000000000000⟩

/-- The float nearest to an integer. -/
def ofInt (n : Int) : Binary64 :=
  ofNatBits (FloatFormat.double.nearestScaled (n < 0) n.natAbs 0)

/-- Is it neither infinite nor not-a-number? -/
def isFinite (x : Binary64) : Bool :=
  match x.parts with
  | .finite .. => true
  | _ => false

/-- The product of two magnitudes, rounded once. -/
def mulMagnitude (x y : Binary64) : Binary64 :=
  match x.parts, y.parts with
  | .finite _ m e, .finite _ n k => ofNatBits (FloatFormat.double.nearestScaled false (m * n) (e + k))
  | _, _ => infinity

/-- The quotient of two magnitudes, rounded once. -/
def divMagnitude (x y : Binary64) : Binary64 :=
  match x.parts, y.parts with
  | .finite _ m e, .finite _ n k =>
    let shift := e - k
    ofNatBits (FloatFormat.double.nearest (m * 2 ^ shift.toNat) (n * 2 ^ (-shift).toNat))
  | _, _ => infinity

/-- The integer that the float is, if it is one. -/
def toInt? (x : Binary64) : Option Int :=
  match x.parts with
  | .finite negative mantissa exponent =>
    let scaled := mantissa * 2 ^ exponent.toNat
    let unit := 2 ^ (-exponent).toNat
    if scaled % unit = 0 then
      let magnitude : Int := (scaled / unit : Nat)
      some (if negative then -magnitude else magnitude)
    else none
  | _ => none

/-- Is it zero of either sign? -/
def isZero (x : Binary64) : Bool :=
  match x.parts with
  | .finite _ mantissa _ => mantissa == 0
  | _ => false

/-- The nearest 32-bit float. -/
def narrow (x : Binary64) : Binary32 := ⟨UInt32.ofNat (FloatFormat.single.encode x.parts)⟩

end Binary64

namespace Binary32

/-- What the number is. -/
def parts (x : Binary32) : FloatParts := FloatFormat.single.decode x.bits.toNat

/-- The number with the given pattern. -/
def ofNatBits (bits : Nat) : Binary32 := ⟨UInt32.ofNat bits⟩

/-- Positive zero. -/
def zero : Binary32 := ⟨0⟩

/-- The float nearest to an integer. -/
def ofInt (n : Int) : Binary32 :=
  ofNatBits (FloatFormat.single.nearestScaled (n < 0) n.natAbs 0)

/-- Is it neither infinite nor not-a-number? -/
def isFinite (x : Binary32) : Bool :=
  match x.parts with
  | .finite .. => true
  | _ => false

/-- Is it zero of either sign? -/
def isZero (x : Binary32) : Bool :=
  match x.parts with
  | .finite _ mantissa _ => mantissa == 0
  | _ => false

/-- The same number as a 64-bit float. -/
def widen (x : Binary32) : Binary64 := .ofNatBits (FloatFormat.double.encode x.parts)

end Binary32

end Tagwire
