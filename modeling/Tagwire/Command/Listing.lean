import Tagwire.Registry

/-!
# Listing the types of a schema

The types of a registry in the order of their names, each with its fields, as lines of text or as JSON.
-/

set_option autoImplicit false

namespace Tagwire

namespace RegisteredField

/-- The line of a field in a listing: its number, filled up to three places, its type and its name. -/
def listingLine (field : RegisteredField) : String :=
  let number := toString field.number
  "  " ++ "".pushn ' ' (3 - number.length) ++ number ++ "  " ++ (if field.repeated then "repeated " else "")
    ++ field.typeName ++ " " ++ field.protoName

end RegisteredField

namespace RegisteredType

/-- The lines of a type in a listing. -/
def listingLines (type : RegisteredType) : List String :=
  type.name :: type.fields.map RegisteredField.listingLine

/-- The JSON form of a type in a listing. -/
def listingJson (type : RegisteredType) : Json :=
  .ofMembers [("name", .str type.name), ("fields", .arr (type.fields.map RegisteredField.toJson))]

end RegisteredType

namespace Registry

/-- The listing of a registry as text. -/
def listing (registry : Registry) : String :=
  String.join ((registry.toList.flatMap RegisteredType.listingLines).map (· ++ "\n"))

/-- The listing of a registry as JSON. -/
def jsonListing (registry : Registry) : String :=
  (Json.arr (registry.toList.map RegisteredType.listingJson)).pretty ++ "\n"

end Registry

end Tagwire
