import Tagwire.Mapping.Reader
import Tagwire.Registry

/-!
# Finding types

A type is found by its full name, or by its last part alone as long as no other message of the schema ends
in it.  The well-known types can be found like any other, but they are not listed, and the registry of a
schema holds the listed types only: each under its full name, and under its last part while only one
listed type ends in it.
-/

set_option autoImplicit false

namespace Tagwire

/-- The part of a full name behind its last dot. -/
def bareName (name : String) : String :=
  String.ofList (name.toList.reverse.takeWhile (· != '.')).reverse

namespace MessageType

/-- A field as registries list it: its record key, its name, its number, the name of its type and whether it is
a list. -/
def registeredField (field : MessageField) : RegisteredField :=
  { name := field.jsonName, protoName := field.name, number := field.number
    typeName := field.type.name, repeated := field.shape == .list }

/-- The fields as registries list them, in ascending order of their numbers. -/
def registeredFields (type : MessageType) : List RegisteredField :=
  (type.fields.map registeredField).mergeSort fun a b => a.number ≤ b.number

/-- Is field 1 a single string with the name `type`, so that a tag can take its place? -/
def hasTypeTag (type : MessageType) : Bool :=
  match type.field? RegisteredField.typeTag.number with
  | some field => field.name == typeField && field.type == .scalar .string && field.shape != .list
  | none => false

/-- The type as registries list it, under the given name. -/
def registered (type : MessageType) (name : String) : RegisteredType :=
  { name, fields := type.registeredFields }

end MessageType

namespace Schema

/-- The message type that `name` finds: the one `lookup?` gives, or else the only one whose full name has `name`
as its last part. -/
def find? (schema : Schema) (name : String) : Option MessageType :=
  match schema.lookup? name with
  | some type => some type
  | none =>
    if name.toList.contains '.' then none
    else
      match schema.messages.filter fun e => bareName e.2.name == name with
      | [e] => some e.2
      | _ => none

/-- Is it the full name of a type in `google.protobuf`, which is not listed? -/
def isWellKnownName (name : String) : Bool :=
  (WellKnown.package ++ ".").toList.isPrefixOf name.toList

/-- The full names of the listed types, which are those outside `google.protobuf`, in ascending order. -/
def messageNames (schema : Schema) : List String :=
  schema.messages.keys.filter fun name => !isWellKnownName name

/-- The listed types under their full names, and under the last part of the name where no other listed type
shares it. -/
def registered (schema : Schema) : List RegisteredType :=
  let names := schema.messageNames
  names.flatMap fun name =>
    match schema.find? name with
    | none => []
    | some type =>
      let bare := bareName name
      let full := type.registered name
      if bare ≠ name ∧ (names.filter fun n => bareName n == bare).length = 1 then
        [type.registered bare, full]
      else [full]

/-- The registry of the listed types, as `registered` names them. -/
def registry (schema : Schema) : Registry := Registry.ofList schema.registered

end Schema

end Tagwire
