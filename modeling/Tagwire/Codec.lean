import Tagwire.Codec.Conversion
import Tagwire.Codec.Options
import Tagwire.Codec.Store

/-!
# Encoding and decoding records

A codec encodes a record as the message of the type that the record names.  Plain bytes say nothing of
their type, so that it has to be given to decode them.  Predictive bytes are an envelope: the field of the
type holds a tag that only the cipher of the codec makes and reads, so the type need not be given, but it
has to be registered.

A record decoded from an envelope starts as a fresh record of the registered type and takes over all that
was decoded but the tag; its type is the name that the tag stands for.
-/

set_option autoImplicit false

namespace Tagwire

/-- How `encodeWith` encodes a record: with `verify` it refuses members that the type does not know, and with
`predictive` it writes the encrypted tag in the place of the type. -/
structure EncodeOptions where
  verify : Bool := true
  predictive : Bool := false
deriving DecidableEq, Repr

/-- A codec: the store that its schema is loaded into, the cipher of its type tags, and whether `encode` and
`encodePredictive` verify. -/
structure Codec where
  store : SchemaStore
  cipher : TagCipher
  verifyByDefault : Bool := true

namespace Codec

/-- The codec over a store with the given options, if the key and the initialization block of the cipher have
the lengths that its algorithm asks for. -/
def ofStore (store : SchemaStore) (options : CodecOptions) : Except CodecError Codec := do
  let cipher ← (TagCipher.ofConfig options.cipher).mapError .cipher
  return { store, cipher, verifyByDefault := options.verifyByDefault }

/-- The type that a record names under `typeField`, or the error `missingType`. -/
def typeOf (record : Record) : Except CodecError String :=
  match record.typeName? with
  | some name => .ok name
  | none => .error .missingType

end Codec

/-- Checks that a record is a message of the type that it names, without unknown members; the errors are
`notCompiled`, `missingType`, `typeNotFound` and `violation`, in this order. -/
def SchemaStore.verify (store : SchemaStore) (record : Record) : Except CodecError Unit := do
  let _ ← store.schema
  let name ← Codec.typeOf record
  let (schema, type) ← store.find name
  let _ ← schema.toMessage type true record

namespace Codec

/-- The message that a record stands for, with its schema and its type.  The type of the record is asked for
before the schema. -/
def toMessage (codec : Codec) (record : Record) (strict : Bool) :
    Except CodecError (Schema × MessageType × FieldValues) := do
  let name ← typeOf record
  let (schema, type) ← codec.store.find name
  let values ← schema.toMessage type strict record
  return (schema, type, values)

/-- The record that a message of a type stands for, with the full name of the type under `typeField`. -/
def fromMessage (codec : Codec) (type : MessageType) (values : FieldValues) :
    Except CodecError Record := do
  let (schema, type) ← codec.store.find type.name
  let record ← schema.fromMessage type values
  return record.withType type.name

/-- Checks that a record is a message of the type that it names, as `SchemaStore.verify` does. -/
def verify (codec : Codec) (record : Record) : Except CodecError Unit := codec.store.verify record

/-- Encodes a record of a type as an envelope: the name has at most `maxTagNameBytes` bytes, the type has a
field for the tag, and the tag takes the place of the name in the record. -/
def encodeEnvelope (codec : Codec) (schema : Schema) (type : MessageType) (name : String)
    (record : Record) : Except CodecError Bytes :=
  if maxTagNameBytes < name.utf8ByteSize then .error (.typeNameTooLong name)
  else if !type.hasTypeTag then .error (.violation type.name .noTypeTag)
  else do
    let tag ← (codec.cipher.encrypt name).mapError .cipher
    schema.encodeRecord type false (record.withType tag)

/-- Encodes a record with given options: the schema is asked for first, then the type of the record, and with
`verify` the record is checked before anything is written. -/
def encodeWith (codec : Codec) (options : EncodeOptions) (record : Record) :
    Except CodecError Bytes := do
  let _ ← codec.store.schema
  let name ← typeOf record
  let (schema, type) ← codec.store.find name
  if options.predictive then
    if options.verify then
      let _ ← schema.toMessage type true record
    codec.encodeEnvelope schema type name record
  else schema.encodeRecord type options.verify record

/-- Encodes a record as plain bytes, with verification if the codec verifies by default. -/
def encode (codec : Codec) (record : Record) : Except CodecError Bytes :=
  codec.encodeWith { verify := codec.verifyByDefault } record

/-- Encodes a record as an envelope, with verification if the codec verifies by default. -/
def encodePredictive (codec : Codec) (record : Record) : Except CodecError Bytes :=
  codec.encodeWith { verify := codec.verifyByDefault, predictive := true } record

/-- Decodes bytes as a record of the type that `name` finds, with `name` under `typeField` whatever the bytes
say. -/
def decodeAs (codec : Codec) (bytes : Bytes) (name : String) : Except CodecError Record := do
  let (schema, type) ← codec.store.find name
  let record ← schema.decodeRecord type bytes
  return record.withType name

/-- The type that the tag of an envelope names, read without a schema. -/
def peekType (codec : Codec) (bytes : Bytes) : Except CodecError String :=
  (Envelope.peek codec.cipher bytes).mapError fun e => .format (.envelope e)

/-- Decodes an envelope: `peekType` gives the name, the registry a fresh record of it, and every member that
`decodeAs` reads is set in this record. -/
def decodePredictive (codec : Codec) (bytes : Bytes) (registry : Registry) :
    Except CodecError Record := do
  let _ ← codec.store.schema
  let name ← codec.peekType bytes
  match registry.get? name with
  | none => .error (.unknownPredictiveType name)
  | some registered =>
    let (schema, type) ← codec.store.find name
    let decoded ← schema.decodeRecord type bytes
    return (registered.instantiate.extend (decoded.erase typeField)).withType registered.name

end Codec

end Tagwire
