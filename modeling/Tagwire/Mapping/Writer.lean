import Tagwire.Mapping.Reader

/-!
# Messages as JSON

A message is the object of its fields under their record keys.  A field that does not tell its default from
nothing is always a member, any other one only while it is set.  Sixty-four bits stay a number, a value of
an enumeration is its name if it has one, and a message with a form of its own takes that form.

The message in an `Any` is read from its bytes, of which there are fewer than of the message that holds
it; so this ends however often it happens within one message.
-/

set_option autoImplicit false

namespace Tagwire

/-- The characters `type.googleapis.com/`, which stand before the full name in the address of a type. -/
def typeAddressPrefix : List Char := "type.googleapis.com/".toList

/-- The full name behind `typeAddressPrefix`; an address that begins in another way names no type. -/
def nameInTypeAddress? (address : String) : Option String :=
  if typeAddressPrefix.isPrefixOf address.toList then
    some (String.ofList (address.toList.drop typeAddressPrefix.length))
  else none

namespace Schema

/-- The JSON form of a scalar by `Value.scalarJson`, or of a value of an enumeration: its name if the
enumeration has one for the number, and otherwise the number. Values of `nullEnum` are null. -/
def scalarToJson (schema : Schema) (type : ValueType) (value : Value) : Json :=
  match type, value with
  | .enum name, .int n =>
    if name = nullEnum then .null
    else
      match (schema.enum? name).bind fun e => e.values.find? fun v => v.2 == n with
      | some (name, _) => .str name
      | none => .int n
  | _, value => value.scalarJson

/-- The JSON form of the default of a field: an empty array for a list, an empty object for a map. -/
def defaultToJson (schema : Schema) (field : MessageField) : Json :=
  match field.shape with
  | .list => .arr []
  | .map => .obj []
  | .single => schema.scalarToJson field.type field.default

/-- The members of the fields without presence that are not set, each with its default. -/
def unsetMembers (schema : Schema) (type : MessageType) (values : FieldValues) : List (String × Json) :=
  (type.fields.filter fun f => !f.presence && !FieldValues.contains values f.number).map fun f =>
    (f.jsonName, schema.defaultToJson f)

/-- How the address and the bytes in an `Any` are brought into the members of an object. -/
abbrev Unpack : Type := String → Bytes → Option (List (String × Json))

/-- The JSON value of a message with a `SpecialForm`; the bytes in an `Any` are brought into members by
`unpack`. -/
def specialToJson? (schema : Schema) (unpack : Unpack) (form : SpecialForm) (type : MessageType)
    (values : FieldValues) : Option Json := do
  let stored ← form.load? schema type values
  match form with
  | .any =>
    let address := SpecialForm.textAt stored 1
    let members ← unpack address (SpecialForm.bytesAt stored 2)
    return .ofMembers ((anyTypeKey, .str address) :: members)
  | form => form.toJson? stored

mutual

/-- The JSON form of a value of a type: of a message the object of `fieldsToJson?` and `unsetMembers`, or else
what `specialToJson?` gives. -/
def valueToJson? (schema : Schema) (unpack : Unpack) (type : ValueType) : Value → Option Json
  | .message values =>
    match schema.message? type.name with
    | none => none
    | some message =>
      match SpecialForm.ofTypeName? message.name with
      | some form => schema.specialToJson? unpack form message values
      | none =>
        (schema.fieldsToJson? unpack message values).map fun members =>
          .ofMembers (schema.unsetMembers message values ++ members)
  | .list items => (schema.itemsToJson? unpack type items).map .arr
  | .map entries =>
    match schema.entryTypes? type.name with
    | some (_, type) => (schema.entriesToJson? unpack type entries).map Json.ofMembers
    | none => none
  | scalar => some (schema.scalarToJson type scalar)

/-- The members of the fields of a message that are set, under their record keys. -/
def fieldsToJson? (schema : Schema) (unpack : Unpack) (type : MessageType) :
    List (Nat × Value) → Option (List (String × Json))
  | [] => some []
  | (number, value) :: rest =>
    match type.field? number with
    | none => schema.fieldsToJson? unpack type rest
    | some field => do
      let json ← schema.valueToJson? unpack field.type value
      let members ← schema.fieldsToJson? unpack type rest
      return (field.jsonName, json) :: members

/-- The JSON forms of the items of a list. -/
def itemsToJson? (schema : Schema) (unpack : Unpack) (type : ValueType) :
    List Value → Option (List Json)
  | [] => some []
  | value :: rest => do
    let json ← schema.valueToJson? unpack type value
    let jsons ← schema.itemsToJson? unpack type rest
    return json :: jsons

/-- The members that the entries of a map are, under the texts of their keys. -/
def entriesToJson? (schema : Schema) (unpack : Unpack) (type : ValueType) :
    List (MapKey × Value) → Option (List (String × Json))
  | [] => some []
  | (key, value) :: rest => do
    let json ← schema.valueToJson? unpack type value
    let members ← schema.entriesToJson? unpack type rest
    return (key.text, json) :: members

end

/-- Decodes the bytes in an `Any`: the members of the object of a message, or its JSON form under `anyValueKey`
if it has a `SpecialForm`. -/
def unpackAny? (schema : Schema) (address : String) (bytes : Bytes) : Option (List (String × Json)) := do
  let message ← (nameInTypeAddress? address).bind schema.lookup?
  let values ← schema.decode? message bytes
  let unpack : Unpack := fun address inner =>
    if inner.length < bytes.length then schema.unpackAny? address inner else none
  let json ← schema.valueToJson? unpack (.message message.name) (.message values)
  if (SpecialForm.ofTypeName? message.name).isSome then return [(anyValueKey, json)]
  else
    match json with
    | .obj members => return members
    | _ => none
termination_by bytes.length

/-- The JSON form of a message with the given fields, in which an `Any` is read by `unpackAny?`. -/
def messageToJson? (schema : Schema) (type : MessageType) (values : FieldValues) : Option Json :=
  schema.valueToJson? schema.unpackAny? (.message type.name) (.message values)

end Schema

end Tagwire
