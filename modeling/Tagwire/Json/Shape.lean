import Tagwire.Json.Value

/-!
# Structures and choices written as JSON

Definitions, registered fields and configurations are read from JSON by one pair of rules.  A structure is
an object of its members, or an array of them in their order; a member with a default may be missing, in
an array only at the end.  A choice without data is its name, or an object with that name over null; a
choice with data is an object of one member.
-/

set_option autoImplicit false

namespace Tagwire

namespace Json

/-- A member of a structure: its name, and whether it may be missing. -/
structure Member where
  name : String
  hasDefault : Bool := false

/-- Pairs the members of a structure with the items of an array in order. -/
def positional? : List Member → List Json → Option (List (Option Json))
  | [], [] => some []
  | [], _ :: _ => none
  | _ :: members, item :: items => (positional? members items).map (some item :: ·)
  | member :: members, [] =>
    if member.hasDefault then (positional? members []).map (none :: ·) else none

/-- The values of the members of a structure, `none` for one left to its default.

A closed structure admits no member but its own. -/
def structure? (members : List Member) (closed : Bool) : Json → Option (List (Option Json))
  | .obj entries =>
    if closed && entries.any (fun e => !members.any (·.name == e.1)) then none
    else members.mapM fun m =>
      match Entries.get? entries m.name with
      | some value => some (some value)
      | none => if m.hasDefault then some none else none
  | .arr items => positional? members items
  | _ => none

/-- The name of a choice without data. -/
def choiceName? : Json → Option String
  | .str name => some name
  | .obj [(name, .null)] => some name
  | _ => none

/-- The name and the data of a choice. -/
def choice? : Json → Option (String × Json)
  | .obj [(name, data)] => some (name, data)
  | _ => none

/-- A string, or nothing where null stands. -/
def optionalString? : Json → Option (Option String)
  | .null => some none
  | .str s => some (some s)
  | _ => none

end Json

end Tagwire
