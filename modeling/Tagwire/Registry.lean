import Tagwire.Json.Shape
import Tagwire.Kind
import Tagwire.Record

/-!
# Registries of types

A registry lists message types by name with their fields, and can make a fresh record of any of them.  A
fresh record comes from the constructor of the type, or holds the default of every field that has one:
the empty list, zero, false or the empty text.  A field with a message in it has no default and stays
away.
-/

set_option autoImplicit false

namespace Tagwire

/-- A field of a registered type. -/
structure RegisteredField where
  name : String
  protoName : String
  /-- The number of the field, which the layout of a type counts from the fields before it.  It is not cut to 32
  bits: this could make a difference only to a type of `2 ^ 32 - 1` fields, more than any memory holds. -/
  number : Nat
  typeName : String
  repeated : Bool
deriving DecidableEq, Repr, Inhabited

namespace RegisteredField

/-- The field that holds the type of a record: `type`, number 1, a single string. -/
def typeTag : RegisteredField := ⟨typeField, typeField, 1, Scalar.string.keyword, false⟩

/-- The value of the field in a fresh record: an empty list for a repeated field, the zero of a scalar kind, and
none for a single record, enumeration or well-known type. -/
def defaultValue? (field : RegisteredField) : Option Json :=
  if field.repeated then some (.arr [])
  else (Scalar.ofKeyword? field.typeName).map fun
    | .boolean => .bool false
    | .string | .bytes => .str ""
    | .double | .float => .float .zero
    | _ => .int 0

/-- The JSON form of a field, with its five members. -/
def toJson (field : RegisteredField) : Json :=
  .ofMembers
    [("name", .str field.name), ("proto_name", .str field.protoName), ("number", .nat field.number),
     ("type_name", .str field.typeName), ("repeated", .bool field.repeated)]

/-- The field with a JSON form, in which all five members are present; its number is below `2 ^ 32`. -/
def ofJson? (json : Json) : Option RegisteredField := do
  match ← json.structure?
      [⟨"name", false⟩, ⟨"proto_name", false⟩, ⟨"number", false⟩, ⟨"type_name", false⟩,
       ⟨"repeated", false⟩] false with
  | [some (.str name), some (.str protoName), some (.int number), some (.str typeName),
     some (.bool repeated)] =>
    if 0 ≤ number ∧ number < 2 ^ 32 then
      return { name, protoName, number := number.toNat, typeName, repeated }
    else none
  | _ => none

end RegisteredField

/-- A message type known to a registry: its name, its parent, its fields in order, and the record that a
constructor of its own makes in the place of the defaults. -/
structure RegisteredType where
  name : String
  parent : String := baseMessage
  fields : List RegisteredField := []
  constructed : Option Record := none
deriving Repr, Inhabited

namespace RegisteredType

/-- The first field under a record key. -/
def field? (type : RegisteredType) (key : String) : Option RegisteredField :=
  type.fields.find? fun f => f.name == key

/-- A record with the default of each field that has one. -/
def defaults (fields : List RegisteredField) : Record :=
  fields.foldl
    (fun record f =>
      match f.defaultValue? with
      | some value => record.insert f.name value
      | none => record)
    {}

/-- A fresh record of the type: what its constructor makes, or else the defaults of its fields, with its name
under `typeField`. -/
def instantiate (type : RegisteredType) : Record :=
  (type.constructed.getD (defaults type.fields)).withType type.name

end RegisteredType

/-- Types by name, one under each. -/
structure Registry where
  types : Entries RegisteredType := []
deriving Repr, Inhabited

namespace Registry

/-- Adds a type under its name, in the place of an earlier one. -/
def register (registry : Registry) (type : RegisteredType) : Registry :=
  ⟨Entries.insert registry.types type.name type⟩

/-- The registry of a list of types: `register` for each in turn, so that a later one replaces an earlier one of
its name. -/
def ofList (types : List RegisteredType) : Registry := types.foldl register {}

/-- The type that was registered last under `name`. -/
def get? (registry : Registry) (name : String) : Option RegisteredType :=
  Entries.get? registry.types name

/-- Is a type registered under `name`? -/
def contains (registry : Registry) (name : String) : Bool := (registry.get? name).isSome

/-- The names of the registered types, in ascending order. -/
def names (registry : Registry) : List String := registry.types.keys

/-- The registered types, in the ascending order of their names. -/
def toList (registry : Registry) : List RegisteredType := registry.types.map Prod.snd

/-- The number of registered types. -/
def size (registry : Registry) : Nat := registry.types.length

end Registry

end Tagwire
