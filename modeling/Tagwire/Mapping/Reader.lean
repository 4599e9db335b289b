import Tagwire.Mapping.WellKnown

/-!
# Messages from JSON

A member of a record sets the field whose record key it has, or else the field of its own name.  A member
that is null sets a scalar to its default and leaves a message unset, and of the fields of a oneof only one
may be set.  A strict reader refuses a member that addresses no field, a lenient one passes over it; what a
member that does address a field may hold is the same for both.
-/

set_option autoImplicit false

namespace Tagwire

/-- The key `@type` of the member of an `Any` that gives the address of the type of the message in it. -/
def anyTypeKey : String := "@type"

/-- The key `value` of the member of an `Any` that holds its message where that has a `SpecialForm`. -/
def anyValueKey : String := "value"

/-- The name behind the last slash of the address of a type; an address without a slash names none. -/
def nameOfTypeAddress? (address : String) : Option String :=
  if address.toList.contains '/' then
    some (String.ofList (address.toList.reverse.takeWhile (· != '/')).reverse)
  else none

namespace Schema

/-- The message type with a full name, which may have one dot in front of it. -/
def lookup? (schema : Schema) (name : String) : Option MessageType :=
  match name.toList with
  | '.' :: rest => schema.message? (String.ofList rest)
  | _ => schema.message? name

/-- The full name `google.protobuf.NullValue` of the enumeration that JSON writes as null. -/
def nullEnum : String := WellKnown.nullValue.typeName

/-- The number of a value of an enumeration: that of a name is the one the enumeration gives it. A number within
32 bits stands for itself except in `nullEnum`, where nothing but null and the name of the value stand for
one. -/
def enumOfJson? (schema : Schema) (name : String) (json : Json) : Option Value := do
  let enum ← schema.enum? name
  match json with
  | .str text => (enum.values.find? fun v => v.1 == text).map fun v => .int v.2
  | .int n => if name ≠ nullEnum ∧ -(2 ^ 31) ≤ n ∧ n < 2 ^ 31 then some (.int n) else none
  | .null => if name = nullEnum then some (.int 0) else none
  | _ => none

/-- What a null member sets its field to: a scalar, an enumeration or a list of these to its default, and a
single dynamic value to its null. Any other message, list of messages or map it leaves as it is, which the inner
`none` says. -/
def ofNull (schema : Schema) (field : MessageField) : Option (Option Value) :=
  match field.type with
  | .message name =>
    if name = WellKnown.value.typeName ∧ field.shape = .single then
      match schema.message? name with
      | some type =>
        (SpecialForm.value.store? schema type (DynamicValue.ofJson .null)).map fun v => some (.message v)
      | none => none
    else some none
  | _ => some (some field.default)

/-- What a member sets its field to: `ofNull` if it is null, and otherwise `read`, the value that `valueOfJson?`
gives. The outer `none` is a refusal, the inner one a member that sets nothing. -/
def ofMember (schema : Schema) (field : MessageField) (json : Json) (read : Option Value) :
    Option (Option Value) :=
  match json with
  | .null => schema.ofNull field
  | _ => read.map some

/-- The scalar kind of the keys and the type of the values of a map whose entries are messages with the given
name: those of fields 1 and 2. -/
def entryTypes? (schema : Schema) (name : String) : Option (Scalar × ValueType) := do
  let entry ← schema.message? name
  let key ← entry.field? 1
  let value ← entry.field? 2
  let kind ← key.type.scalar?
  return (kind, value.type)

mutual

/-- The value of a shape and a type that a JSON value stands for: an array for a list, an object for a map and
for a message without a `SpecialForm`, and a scalar as `Scalar.ofJson?` reads it. -/
def valueOfJson? (schema : Schema) (strict : Bool) (shape : FieldShape) (type : ValueType) (json : Json) :
    Option Value :=
  match shape, type with
  | .list, type =>
    match json with
    | .arr items => (schema.itemsOfJson? strict type items).map .list
    | _ => none
  | .map, type =>
    match json, schema.entryTypes? type.name with
    | .obj members, some (kind, type) => (schema.entriesOfJson? strict kind type [] members).map .map
    | _, _ => none
  | .single, .scalar kind => kind.ofJson? json
  | .single, .enum name => schema.enumOfJson? name json
  | .single, .message name =>
    match schema.message? name with
    | none => none
    | some message =>
      match SpecialForm.ofTypeName? message.name with
      | none =>
        match json with
        | .obj members => (schema.fieldsOfJson? strict message false [] members).map .message
        | _ => none
      | some .any =>
        match json with
        | .obj members => do
          let address ← (Entries.get? members anyTypeKey).bind Json.str?
          let payload ← (nameOfTypeAddress? address).bind schema.lookup?
          let values ←
            if (SpecialForm.ofTypeName? payload.name).isSome then
              if strict && members.any fun m => m.1 != anyTypeKey && m.1 != anyValueKey then none
              else schema.payloadOfJson? strict payload.name members
            else schema.fieldsOfJson? strict payload true [] members
          (SpecialForm.any.store? schema message
            [(1, .string address), (2, .bytes (schema.encode payload values))]).map .message
        | _ => none
      | some form => ((form.ofJson? json).bind (form.store? schema message)).map .message

/-- Sets the fields of a message from members in turn. A member that addresses no field is refused if `strict`
and passed over otherwise, as the member `@type` is within an `Any`; a field with a rival of its oneof set
already is refused. -/
def fieldsOfJson? (schema : Schema) (strict : Bool) (type : MessageType) (inAny : Bool)
    (values : FieldValues) : List (String × Json) → Option FieldValues
  | [] => some values
  | (key, json) :: rest =>
    if inAny && key == anyTypeKey then schema.fieldsOfJson? strict type inAny values rest
    else
      match type.member? key with
      | none => if strict then none else schema.fieldsOfJson? strict type inAny values rest
      | some field =>
        match schema.ofMember field json (schema.valueOfJson? strict field.shape field.type json) with
        | none => none
        | some none => schema.fieldsOfJson? strict type inAny values rest
        | some (some value) =>
          if (type.rivals field).any (FieldValues.contains values) then none
          else
            schema.fieldsOfJson? strict type inAny (FieldValues.set values field.number value) rest

/-- The values that the items of an array stand for, each of the given type. -/
def itemsOfJson? (schema : Schema) (strict : Bool) (type : ValueType) : List Json → Option (List Value)
  | [] => some []
  | json :: rest => do
    let value ← schema.valueOfJson? strict .single type json
    let values ← schema.itemsOfJson? strict type rest
    return value :: values

/-- Sets the entries of a map from the members of an object in turn, their keys read by `Scalar.keyOfText?`. -/
def entriesOfJson? (schema : Schema) (strict : Bool) (kind : Scalar) (type : ValueType)
    (entries : List (MapKey × Value)) : List (String × Json) → Option (List (MapKey × Value))
  | [] => some entries
  | (key, json) :: rest => do
    let key ← kind.keyOfText? key
    let value ← schema.valueOfJson? strict .single type json
    schema.entriesOfJson? strict kind type (Value.setEntry entries key value) rest

/-- The fields of the message in an `Any` that has a `SpecialForm`: what the member under `anyValueKey` stands
for. -/
def payloadOfJson? (schema : Schema) (strict : Bool) (name : String) :
    List (String × Json) → Option FieldValues
  | [] => none
  | (key, json) :: rest =>
    if key = anyValueKey then
      match schema.valueOfJson? strict .single (.message name) json with
      | some (.message values) => some values
      | _ => none
    else schema.payloadOfJson? strict name rest

end

/-- The fields of a message that a JSON value stands for, as `valueOfJson?` reads it with the shape `single`. -/
def messageOfJson? (schema : Schema) (strict : Bool) (type : MessageType) (json : Json) :
    Option FieldValues :=
  match schema.valueOfJson? strict .single (.message type.name) json with
  | some (.message values) => some values
  | _ => none

end Schema

end Tagwire
