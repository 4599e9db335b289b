import Tagwire.Json.Shape
import Tagwire.Kind
import Tagwire.Name

/-!
# Record definitions

A record definition is plain data: an identity, an optional parent, and its own fields in the order that
numbers them.  Nothing is checked when one is built; the compilation judges a whole list of them.  A
definition has a JSON form, in which a field is a pair of its name and its description.
-/

set_option autoImplicit false

namespace Tagwire

/-- What one field of a definition holds, and whether it holds a list of it. -/
structure FieldDefinition where
  kind : FieldKind
  repeated : Bool := false
deriving DecidableEq, Repr, Inhabited

/-- A record definition: its identity, the identity of its parent, if it has one, and its own fields in
order. -/
structure RecordDefinition where
  id : RecordId
  parent : Option RecordId := none
  fields : List (String × FieldDefinition)
deriving DecidableEq, Repr, Inhabited

namespace FieldKind

/-- The JSON form of a kind: an object with one member, `Scalar`, `WellKnown` or `Record`. -/
def toJson : FieldKind → Json
  | scalar k => .ofMembers [("Scalar", .str k.keyword)]
  | wellKnown k => .ofMembers [("WellKnown", .str k.name)]
  | record target => .ofMembers [("Record", .str target)]

/-- The kind with a JSON form, if it names a scalar keyword, a well-known type or a record. -/
def ofJson? (json : Json) : Option FieldKind := do
  let (name, data) ← json.choice?
  if name = "Scalar" then
    let keyword ← data.choiceName?
    (Scalar.ofKeyword? keyword).map scalar
  else if name = "WellKnown" then
    let wanted ← data.choiceName?
    (WellKnown.all.find? fun k => k.name == wanted).map wellKnown
  else if name = "Record" then data.str?.map record
  else none

end FieldKind

namespace FieldDefinition

/-- The JSON form of a field: its kind, and whether it is repeated. -/
def toJson (field : FieldDefinition) : Json :=
  .ofMembers [("kind", field.kind.toJson), ("repeated", .bool field.repeated)]

/-- The field with a JSON form, in which `repeated` may be missing for false. -/
def ofJson? (json : Json) : Option FieldDefinition := do
  match ← json.structure? [⟨"kind", false⟩, ⟨"repeated", true⟩] false with
  | [some kind, repeated] =>
    let kind ← FieldKind.ofJson? kind
    match repeated with
    | none => return { kind }
    | some (.bool repeated) => return { kind, repeated }
    | some _ => none
  | _ => none

end FieldDefinition

namespace RecordDefinition

/-- The message name of the definition, which `MessageName.ofId` derives from its identity. -/
def messageName (definition : RecordDefinition) : Except NameError MessageName :=
  MessageName.ofId definition.id

/-- The JSON form of a definition, with all members present. -/
def toJson (definition : RecordDefinition) : Json :=
  .ofMembers
    [("id", .str definition.id),
     ("parent", .ofOption (definition.parent.map Json.str)),
     ("fields", .arr (definition.fields.map fun f => .arr [.str f.1, f.2.toJson]))]

/-- A field with its name, read from a pair of the two. -/
def namedField? : Json → Option (String × FieldDefinition)
  | .arr [.str name, field] => (FieldDefinition.ofJson? field).map fun f => (name, f)
  | _ => none

/-- The definition with a JSON form; unknown members are ignored. -/
def ofJson? (json : Json) : Option RecordDefinition := do
  match ← json.structure? [⟨"id", false⟩, ⟨"parent", true⟩, ⟨"fields", false⟩] false with
  | [some (.str id), parent, some (.arr fields)] =>
    let parent ← (parent.getD .null).optionalString?
    let fields ← fields.mapM namedField?
    return { id, parent, fields }
  | _ => none

end RecordDefinition

end Tagwire
