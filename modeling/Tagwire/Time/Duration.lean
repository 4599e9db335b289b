import Tagwire.Time.Fraction

/-!
# Durations

A duration is a number of seconds and of billionths of a second with its sign.  Its text is the seconds in
decimal with an optional fraction and the letter `s`, up to ten thousand years either way.
-/

set_option autoImplicit false

namespace Tagwire

/-- A span of time, in seconds and billionths of a second. -/
structure Duration where
  seconds : Int
  nanos : Int
deriving DecidableEq, Repr, Inhabited

namespace Duration

/-- The greatest number of seconds of a duration, those of ten thousand years. -/
def maxSeconds : Nat := 315576000000

/-- Are there at most `maxSeconds` either way, and less than a second of billionths? -/
def isInRange (d : Duration) : Bool :=
  d.seconds.natAbs ≤ maxSeconds && d.nanos.natAbs < nanosPerSecond.natAbs

/-- The duration that a text writes, decimal digits with an optional sign and fraction before the letter `s`. -/
def ofText? (text : String) : Option Duration := do
  let (negative, cs) := match text.toList with
    | '-' :: rest => (true, rest)
    | rest => (false, rest)
  let seconds ← readDigits? (cs.takeWhile Char.isDigit)
  let (nanos, cs) ← readFractionNanos? (cs.dropWhile Char.isDigit)
  let d : Duration := if negative then ⟨-seconds, -nanos⟩ else ⟨seconds, nanos⟩
  if cs = ['s'] ∧ d.isInRange then return d else none

/-- The same duration with seconds and billionths of one sign. -/
def normalized (d : Duration) : Duration :=
  if d.seconds < 0 ∧ 0 < d.nanos then ⟨d.seconds + 1, d.nanos - nanosPerSecond⟩
  else if 0 < d.seconds ∧ d.nanos < 0 then ⟨d.seconds - 1, d.nanos + nanosPerSecond⟩
  else d

/-- The text of a duration; the minus sign goes by the seconds and billionths as they are given. -/
def text (d : Duration) : String :=
  let n := d.normalized
  (if d.seconds < 0 ∨ d.nanos < 0 then "-" else "") ++ toString n.seconds.natAbs
    ++ fractionText n.nanos.natAbs ++ "s"

end Duration

end Tagwire
