import Tagwire.Json.Value
import Tagwire.Number.Reading
import Tagwire.Text.Base64
import Tagwire.Wire.Scalar

/-!
# Scalars as JSON

A scalar field of a record holds the JSON value of its kind, with some freedom on the way in: a number may
also be written as a string, an integer as a float without a fraction, and bytes in either base 64
alphabet.  On the way out every value has one form.
-/

set_option autoImplicit false

namespace Tagwire

namespace Scalar

/-- The least and the greatest integer of an integer kind, 32 or 64 bits wide and signed or not; the other kinds
have none. -/
def integerRange? : Scalar → Option (Int × Int)
  | int32 | sint32 | sfixed32 => some (-(2 ^ 31), 2 ^ 31 - 1)
  | int64 | sint64 | sfixed64 => some (-(2 ^ 63), 2 ^ 63 - 1)
  | uint32 | fixed32 => some (0, 2 ^ 32 - 1)
  | uint64 | fixed64 => some (0, 2 ^ 64 - 1)
  | _ => none

end Scalar

namespace Json

/-- The integer between `low` and `high` that a float is. The float nearest to `high`, which may lie above it,
stands for `high`. -/
def integerOfFloat? (low high : Int) (x : Binary64) : Option Int := do
  let n ← x.toInt?
  let top := ((Binary64.ofInt high).toInt?).getD high
  if low ≤ n ∧ n ≤ top then return min n high else none

/-- The integer between `low` and `high` that a text writes in decimal; a minus sign is read only where `low` is
negative. -/
def integerOfText? (low high : Int) (text : String) : Option Int := do
  let n ← if low < 0 then readInt? text else (readNat? text).map Int.ofNat
  if low ≤ n ∧ n ≤ high then return n else none

/-- The integer between `low` and `high` that a JSON number or string stands for. -/
def integer? (low high : Int) : Json → Option Int
  | .int n => if low ≤ n ∧ n ≤ high then some n else none
  | .float x => integerOfFloat? low high x
  | .str text => integerOfText? low high text
  | _ => none

/-- The 64-bit float that a JSON number or string stands for. -/
def double? : Json → Option Binary64
  | .int n => some (.ofInt n)
  | .float x => some x
  | .str text => Binary64.read? text
  | _ => none

/-- The greatest finite 32-bit float, `(2 ^ 24 - 1) * 2 ^ 104`. -/
def maxSingle : Nat := (2 ^ 24 - 1) * 2 ^ 104

/-- Is a float finite, and its magnitude at most `maxSingle`? -/
def fitsSingle (x : Binary64) : Bool :=
  match x.parts with
  | .finite _ mantissa exponent =>
    mantissa * 2 ^ exponent.toNat ≤ maxSingle * 2 ^ (-exponent).toNat
  | _ => false

/-- The 32-bit float that a JSON number or string stands for; a finite float above `maxSingle` stands for
none. -/
def single? : Json → Option Binary32
  | .int n => some (.ofInt n)
  | .float x => if fitsSingle x then some x.narrow else none
  | .str text => Binary32.read? text
  | _ => none

/-- A float as JSON: a number if it is finite, and otherwise the string `NaN`, `Infinity` or `-Infinity`. -/
def ofFloat (x : Binary64) : Json :=
  match x.parts with
  | .nan => .str "NaN"
  | .infinite negative => .str (if negative then "-Infinity" else "Infinity")
  | .finite .. => .float x

end Json

namespace Scalar

/-- The value of a scalar kind that a JSON value stands for. -/
def ofJson? (kind : Scalar) (json : Json) : Option Value :=
  match kind.integerRange? with
  | some (low, high) => (json.integer? low high).map .int
  | none =>
    match kind, json with
    | double, _ => json.double?.map .double
    | float, _ => json.single?.map .float
    | boolean, .bool b => some (.bool b)
    | string, .str s => some (.string s)
    | bytes, .str s => (Base64.decode? s).map .bytes
    | _, _ => none

/-- The map key of a scalar kind that the key of a JSON member writes. -/
def keyOfText? (kind : Scalar) (text : String) : Option MapKey :=
  match kind.integerRange? with
  | some (low, high) => (Json.integerOfText? low high text).map .int
  | none =>
    match kind with
    | string => some (.string text)
    | _ => if text = "true" then some (.bool true) else if text = "false" then some (.bool false) else none

end Scalar

/-- The key of the JSON member for an entry of a map: `true` or `false`, the decimal digits, or the string
itself. -/
def MapKey.text : MapKey → String
  | .bool b => if b then "true" else "false"
  | .int n => toString n
  | .string s => s

/-- The JSON form of a scalar value: floats by `ofFloat`, bytes as a string in base 64. -/
def Value.scalarJson : Value → Json
  | .bool b => .bool b
  | .int n => .int n
  | .float x => .ofFloat x.widen
  | .double x => .ofFloat x
  | .string s => .str s
  | .bytes b => .str (Base64.encode b)
  | _ => .null

end Tagwire
