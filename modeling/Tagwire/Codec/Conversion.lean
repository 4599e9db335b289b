import Tagwire.Codec.Error
import Tagwire.Mapping.Writer
import Tagwire.Record
import Tagwire.Wire.Reader
import Tagwire.Wire.Writer

/-!
# Records and messages of one type

A record becomes a message of a type, a message bytes, and both ways back.  Nothing here looks at the type
that a record names.
-/

set_option autoImplicit false

namespace Tagwire

namespace Schema

/-- The message of a type that a record stands for, or a `violation`; with `strict` every member has to be
known. -/
def toMessage (schema : Schema) (type : MessageType) (strict : Bool) (record : Record) :
    Except CodecError FieldValues :=
  match schema.messageOfJson? strict type record.toJson with
  | some values => .ok values
  | none => .error (.violation type.name .content)

/-- The record that a message of a type stands for, if its JSON form is an object. -/
def fromMessage (schema : Schema) (type : MessageType) (values : FieldValues) :
    Except CodecError Record :=
  match schema.messageToJson? type values with
  | some (.obj members) => .ok ⟨members⟩
  | _ => .error (.format (.message type.name))

/-- The bytes of a record as a message of a type: `toMessage`, written. -/
def encodeRecord (schema : Schema) (type : MessageType) (strict : Bool) (record : Record) :
    Except CodecError Bytes := do
  let values ← schema.toMessage type strict record
  return schema.encode type values

/-- The record that bytes write as a message of a type: `decode?`, and then `fromMessage`. -/
def decodeRecord (schema : Schema) (type : MessageType) (bytes : Bytes) : Except CodecError Record :=
  match schema.decode? type bytes with
  | some values => schema.fromMessage type values
  | none => .error (.format (.message type.name))

end Schema

end Tagwire
