import Tagwire.Time.Date
import Tagwire.Time.Fraction

/-!
# Timestamps

A timestamp counts seconds and billionths of a second from the first of January 1970 in universal time.
Its text is a date and a time of day with `T` between them, and `Z` or an offset from universal time behind
them.  Texts are of the years 1 to 9999; a leap second is read as the second before it.
-/

set_option autoImplicit false

namespace Tagwire

/-- A point in time, in seconds and billionths of a second since the beginning of 1970. -/
structure Timestamp where
  seconds : Int
  nanos : Int
deriving DecidableEq, Repr, Inhabited

namespace Timestamp

/-- The first second of the year 1. -/
def minSeconds : Int := -62135596800

/-- The last second of the year 9999. -/
def maxSeconds : Int := 253402300799

/-- Are the seconds from `minSeconds` to `maxSeconds`? -/
def isInRange (t : Timestamp) : Bool := minSeconds ≤ t.seconds && t.seconds ≤ maxSeconds

/-- Reads a date. -/
def readDate? (cs : List Char) : Option (Date × List Char) := do
  let (year, cs) ← readFixedDigits? 4 cs
  let cs ← readChar? '-' cs
  let (month, cs) ← readFixedDigits? 2 cs
  let cs ← readChar? '-' cs
  let (day, cs) ← readFixedDigits? 2 cs
  return (⟨year, month, day⟩, cs)

/-- Reads hours, minutes and seconds as a number of seconds. -/
def readClock? (cs : List Char) : Option (Nat × List Char) := do
  let (hour, cs) ← readFixedDigits? 2 cs
  let cs ← readChar? ':' cs
  let (minute, cs) ← readFixedDigits? 2 cs
  let cs ← readChar? ':' cs
  let (second, cs) ← readFixedDigits? 2 cs
  if hour < 24 ∧ minute < 60 ∧ second ≤ 60 then
    return ((hour * 60 + minute) * 60 + min second 59, cs)
  else none

/-- Reads an offset as the seconds it is ahead of universal time; there is no negative offset of zero. -/
def readOffset? (cs : List Char) : Option (Int × List Char) :=
  match cs with
  | 'Z' :: rest => some (0, rest)
  | sign :: rest => do
    let negative ← if sign = '-' then some true else if sign = '+' then some false else none
    let (hour, rest) ← readFixedDigits? 2 rest
    let rest ← readChar? ':' rest
    let (minute, rest) ← readFixedDigits? 2 rest
    let ahead : Int := (hour * 60 + minute) * 60
    if hour < 24 ∧ minute < 60 ∧ (negative = false ∨ 0 < ahead) then
      return (if negative then -ahead else ahead, rest)
    else none
  | [] => none

/-- The timestamp that a text writes: a date, the letter `T`, a clock time, and `Z` or an offset. -/
def ofText? (text : String) : Option Timestamp := do
  let (date, cs) ← readDate? text.toList
  let cs ← readChar? 'T' cs
  let (clock, cs) ← readClock? cs
  let (nanos, cs) ← readFractionNanos? cs
  let (ahead, cs) ← readOffset? cs
  let t : Timestamp := ⟨date.dayNumber * 86400 + clock - ahead, nanos⟩
  if cs.isEmpty && date.isValid && t.isInRange then return t else none

/-- The same point in time with billionths that make less than a second. -/
def normalized (t : Timestamp) : Timestamp :=
  ⟨t.seconds + t.nanos / nanosPerSecond, t.nanos % nanosPerSecond⟩

/-- A year with four digits at least, and with its sign where it has more or lies before the year 0. -/
def yearText (year : Int) : String :=
  if 9999 < year then "+" ++ toString year
  else if year < 0 then "-" ++ paddedDecimal 4 year.natAbs
  else paddedDecimal 4 year.natAbs

/-- The text of a timestamp. -/
def text (t : Timestamp) : String :=
  let t := t.normalized
  let date := Date.ofDayNumber (t.seconds / 86400)
  let clock := (t.seconds % 86400).toNat
  yearText date.year ++ "-" ++ paddedDecimal 2 date.month ++ "-" ++ paddedDecimal 2 date.day ++ "T"
    ++ paddedDecimal 2 (clock / 3600) ++ ":" ++ paddedDecimal 2 (clock / 60 % 60) ++ ":"
    ++ paddedDecimal 2 (clock % 60) ++ fractionText t.nanos.toNat ++ "Z"

end Timestamp

end Tagwire
