import Tagwire.Entries
import Tagwire.Number.Binary

/-!
# JSON values

Records are dynamic data, so JSON is the one dynamic value type of the library.  An integer literal that
fits 64 bits, signed or unsigned, stays an integer; every other number is a finite 64-bit float.  The
members of an object are key-sorted entries.
-/

set_option autoImplicit false

namespace Tagwire

/-- A JSON value. -/
inductive Json where
  | null
  | bool (value : Bool)
  | int (value : Int)
  | float (value : Binary64)
  | str (value : String)
  | arr (items : List Json)
  | obj (members : List (String × Json))
deriving BEq, Repr, Inhabited

namespace Json

/-- An integer from a natural. -/
def nat (n : Nat) : Json := .int n

/-- An object from its members in any order, a later member replacing an earlier one of its key. -/
def ofMembers (members : List (String × Json)) : Json := .obj (Entries.ofList members)

/-- A string or null. -/
def ofOption : Option Json → Json
  | some value => value
  | none => .null

/-- The text of a string value. -/
def str? : Json → Option String
  | .str s => some s
  | _ => none

/-- The member of an object under a key. -/
def member? (key : String) : Json → Option Json
  | .obj members => Entries.get? members key
  | _ => none

end Json

end Tagwire
